import HookTrace.File.Access
import HookTrace.Proofs.Field

/-!
# HookTrace.Proofs.File.OpenFile

The names that an open file writes, whatever its path and whatever was in the field before.

* `isLastComponent_iff`: the last component of a path is what is behind its last separator, or all
  of it. In a path that is text, that is the text behind the last slash
  (`isLastComponent_ofString`).
* `basenameInto_view`, `fullPathInto_exactly`: a last component is always written, cut if it does
  not fit; a path is written as a whole or not at all.
* `writes_names_exactly`: the two together, and what their text is if there is no NUL in the path.
* `Access.onOpen_eq`, `Access.name_eq`: the hooks write names in the same way.
-/

namespace HookTrace

/-! ### The bytes of a text -/

namespace Bytes

theorem toList_loop (bytes : ByteArray) (i : Nat) (front : List UInt8) :
    ByteArray.toList.loop bytes i front = front.reverse ++ bytes.data.toList.drop i := by
  fun_induction ByteArray.toList.loop bytes i front with
  | case1 i front h ih =>
    have hi : i < bytes.data.toList.length := h
    have hget : bytes.get! i = bytes.data.toList[i] := by
      show bytes.data[i]! = _
      rw [getElem!_pos bytes.data i h, Array.getElem_toList]
    rw [ih, hget, List.reverse_cons, List.append_assoc, List.drop_eq_getElem_cons hi]
    rfl
  | case2 i front h =>
    have hi : bytes.data.toList.length ≤ i := Nat.le_of_not_lt h
    rw [List.drop_of_length_le hi, List.append_nil]

/-- The bytes of a text are those of its characters. -/
theorem ofString_eq (s : String) : ofString s = s.toList.flatMap String.utf8EncodeChar := by
  have hself : s.toByteArray = s.toList.utf8Encode := by
    rw [← String.toByteArray_ofList, String.ofList_toList]
  rw [ofString, String.toUTF8_eq_toByteArray, hself, ByteArray.toList, toList_loop]
  exact List.toList_data_toByteArray

theorem ofString_append (s t : String) : ofString (s ++ t) = ofString s ++ ofString t := by
  rw [ofString_eq, ofString_eq, ofString_eq, String.toList_append, List.flatMap_append]

/-- A character beyond ASCII has no byte in common with ASCII. -/
theorem le_of_mem_utf8EncodeChar {c : Char} (h : 127 < c.val.toNat) :
    ∀ b ∈ String.utf8EncodeChar c, 128 ≤ b.toNat := by
  simp only [String.utf8EncodeChar, if_neg (Nat.not_le.2 h)]
  -- one case for each length of an encoding
  split_ifs <;> simp only [List.mem_cons, List.not_mem_nil, or_false, forall_eq_or_imp, forall_eq,
    UInt8.toNat_ofNat', Nat.reducePow] <;> omega

end Bytes

namespace File

namespace Opened

/-! ### The last component -/

/-- What is behind the last separator of a path, all of it if there is none. -/
def IsLastComponent (path name : Bytes) : Prop :=
  separator ∉ name ∧ (path = name ∨ ∃ front, path = front ++ separator :: name)

variable {path name : Bytes}

theorem ne_separator_of_not_mem (h : separator ∉ name) :
    ∀ b ∈ name.reverse, decide (b ≠ separator) = true := by
  intro b hb
  have hne : b ≠ separator := fun heq => h (heq ▸ List.mem_reverse.1 hb)
  simpa using hne

theorem lastComponent_of_not_mem (h : separator ∉ path) : lastComponent path = path := by
  rw [lastComponent, List.takeWhile_eq_self_iff.2 (ne_separator_of_not_mem h), List.reverse_reverse]

theorem lastComponent_append (front : Bytes) (h : separator ∉ name) :
    lastComponent (front ++ separator :: name) = name := by
  have hrev : (front ++ separator :: name).reverse =
      name.reverse ++ separator :: front.reverse := by simp
  rw [lastComponent, hrev, List.takeWhile_append_of_pos (ne_separator_of_not_mem h),
    List.takeWhile_cons_of_neg (by simp), List.append_nil, List.reverse_reverse]

theorem isLastComponent_lastComponent (path : Bytes) :
    IsLastComponent path (lastComponent path) := by
  have hsplit : path =
      (path.reverse.dropWhile (· ≠ separator)).reverse ++ lastComponent path := by
    rw [lastComponent, ← List.reverse_append, List.takeWhile_append_dropWhile, List.reverse_reverse]
  refine ⟨fun hmem => ?_, ?_⟩
  · simpa using List.mem_takeWhile_imp (List.mem_reverse.1 hmem)
  · cases hdrop : path.reverse.dropWhile (· ≠ separator) with
    | nil =>
      rw [hdrop] at hsplit
      exact .inl hsplit
    | cons b front =>
      have hb : b = separator := by
        have hhead := List.head?_dropWhile_not (· ≠ separator) path.reverse
        rw [hdrop] at hhead
        simpa using hhead
      rw [hdrop, hb, List.reverse_cons, List.append_assoc] at hsplit
      exact .inr ⟨front.reverse, hsplit⟩

theorem isLastComponent_iff : IsLastComponent path name ↔ lastComponent path = name := by
  constructor
  · rintro ⟨hname, rfl | ⟨front, rfl⟩⟩
    · exact lastComponent_of_not_mem hname
    · exact lastComponent_append front hname
  · rintro rfl
    exact isLastComponent_lastComponent path

theorem lastComponent_suffix (path : Bytes) : lastComponent path <:+ path := by
  have hsuffix := List.reverse_suffix.2 (List.takeWhile_prefix (· ≠ separator) (l := path.reverse))
  rwa [List.reverse_reverse] at hsuffix

/-- No character but the slash has the separator among its bytes. -/
theorem separator_mem_utf8EncodeChar (c : Char) :
    separator ∈ String.utf8EncodeChar c ↔ c = '/' := by
  by_cases h : c.val.toNat ≤ 127
  · have hsize : c.utf8Size = 1 := Char.utf8Size_eq_one_iff.2 (UInt32.le_iff_toNat_le.2 h)
    rw [String.utf8EncodeChar_eq_singleton hsize, List.mem_singleton, Char.ext_iff,
      ← UInt8.toNat_inj, ← UInt32.toNat_inj, UInt32.toNat_toUInt8]
    show 47 = c.val.toNat % 256 ↔ c.val.toNat = 47
    omega
  · have hne : c ≠ '/' := fun heq => h (by rw [heq]; decide)
    refine iff_of_false (fun hmem => ?_) hne
    exact absurd (Bytes.le_of_mem_utf8EncodeChar (Nat.lt_of_not_le h) _ hmem) (by decide)

theorem separator_mem_ofString (s : String) : separator ∈ Bytes.ofString s ↔ '/' ∈ s.toList := by
  rw [Bytes.ofString_eq, List.mem_flatMap]
  simp only [separator_mem_utf8EncodeChar, exists_eq_right]

/-- To split the bytes of a text is to split the text. -/
theorem isLastComponent_ofString {path name : String} (hname : '/' ∉ name.toList)
    (hpath : path = name ∨ ∃ front, path = front ++ "/" ++ name) :
    IsLastComponent (.ofString path) (.ofString name) := by
  refine ⟨fun hmem => hname ((separator_mem_ofString name).1 hmem), ?_⟩
  rcases hpath with rfl | ⟨front, rfl⟩
  · exact .inl rfl
  · have hslash : Bytes.ofString "/" = [separator] := (Bytes.ofString_eq "/").trans (by decide)
    refine .inr ⟨.ofString front, ?_⟩
    rw [Bytes.ofString_append, Bytes.ofString_append, hslash, List.append_assoc]
    rfl

/-! ### Written names -/

theorem length_cut_lt (name : Bytes) :
    (name.take (Limits.filename - 1)).length < Limits.filename :=
  Nat.lt_of_le_of_lt (List.length_take_le _ _) (by decide)

/-- What is behind the terminator stays. -/
theorem bytes_overwrite_terminated (dest : Field Limits.filename) (name : Bytes) :
    let written := name.take (Limits.filename - 1)
    (dest.overwrite (terminated name)).bytes =
      written ++ 0 :: dest.bytes.drop (written.length + 1) := by
  intro written
  have hlen : (terminated name).length = written.length + 1 := List.length_append
  rw [Field.bytes_overwrite _ (hlen ▸ length_cut_lt name), hlen, terminated, List.append_assoc]
  rfl

theorem text_overwrite_terminated (dest : Field Limits.filename) (h : (0 : UInt8) ∉ name) :
    (dest.overwrite (terminated name)).text = name.take (Limits.filename - 1) := by
  rw [Field.text, bytes_overwrite_terminated]
  exact Bytes.text_append_nul (fun hmem => h (List.mem_of_mem_take hmem)) _

variable {file : Opened}

theorem basenameInto_view (file : Opened) (dest : Field Limits.filename) :
    file.view.basenameInto dest = (.ok (), dest.overwrite (terminated (lastComponent file.path))) :=
  rfl

theorem fullPathInto_of_lt (h : file.path.length < Limits.filename)
    (dest : Field Limits.filename) :
    file.view.fullPathInto dest = (.ok (), dest.overwrite (terminated file.path)) := by
  unfold OpenFile.fullPathInto view
  rw [if_neg (Nat.not_le.2 h)]
  rfl

theorem fullPathInto_of_le (h : Limits.filename ≤ file.path.length)
    (dest : Field Limits.filename) :
    file.view.fullPathInto dest = (.error (.noPath "d_path" nameTooLong), dest) := by
  unfold OpenFile.fullPathInto view
  rw [if_pos h]
  rfl

/-- Nothing of a name that leaves room for the terminator is cut. -/
theorem take_of_length_lt (h : name.length < Limits.filename) :
    name.take (Limits.filename - 1) = name :=
  List.take_of_length_le (Nat.le_sub_one_of_lt h)

/-- A path is written as a whole or not at all. -/
theorem fullPathInto_exactly (file : Opened) (dest : Field Limits.filename) :
    let fullPath := file.view.fullPathInto dest
    (fullPath.1 = .ok () ↔ file.path.length ≤ Limits.filename - 1) ∧
    (fullPath.1 = .ok () →
      fullPath.2.bytes = file.path ++ 0 :: dest.bytes.drop (file.path.length + 1)) ∧
    (fullPath.1 ≠ .ok () → fullPath = (.error (.noPath "d_path" nameTooLong), dest)) := by
  intro fullPath
  have hfits : file.path.length < Limits.filename ↔ file.path.length ≤ Limits.filename - 1 :=
    Nat.lt_iff_le_pred (by decide)
  by_cases hlen : file.path.length < Limits.filename
  · have hwritten : fullPath = _ := fullPathInto_of_lt hlen dest
    have hbytes := bytes_overwrite_terminated dest file.path
    rw [take_of_length_lt hlen] at hbytes
    rw [hwritten]
    exact ⟨iff_of_true rfl (hfits.1 hlen), fun _ => hbytes, fun h => absurd rfl h⟩
  · have hrefused : fullPath = _ := fullPathInto_of_le (Nat.not_lt.1 hlen) dest
    rw [hrefused]
    exact ⟨iff_of_false nofun fun h => hlen (hfits.2 h), nofun, fun _ => rfl⟩

theorem text_basenameInto (h0 : (0 : UInt8) ∉ file.path) (dest : Field Limits.filename) :
    (file.view.basenameInto dest).2.text =
      (lastComponent file.path).take (Limits.filename - 1) := by
  rw [basenameInto_view]
  exact text_overwrite_terminated dest fun hmem =>
    h0 ((lastComponent_suffix file.path).subset hmem)

theorem text_fullPathInto (h0 : (0 : UInt8) ∉ file.path) (h : file.path.length < Limits.filename)
    (dest : Field Limits.filename) : (file.view.fullPathInto dest).2.text = file.path := by
  rw [fullPathInto_of_lt h]
  exact (text_overwrite_terminated dest h0).trans (take_of_length_lt h)

/-- Names are written exactly, whatever the field held. The last component of a path is what is
behind its last separator, and it is always written, cut to leave room for the terminator. A path
is written as a whole, or refused and nothing changes, if it leaves no room. Behind the terminator
the field is as it was. Without a NUL in the path, the text of a field is the name written into it,
and the last component, if it was not cut, is that of the path that was written. -/
theorem writes_names_exactly (file : Opened) (dest dest' : Field Limits.filename) :
    let basename := file.view.basenameInto dest
    let fullPath := file.view.fullPathInto dest'
    let written := (lastComponent file.path).take (Limits.filename - 1)
    ((∀ name, lastComponent file.path = name ↔ IsLastComponent file.path name) ∧
      ∀ path name : String, '/' ∉ name.toList →
        (path = name ∨ ∃ front, path = front ++ "/" ++ name) →
        file.path = .ofString path → lastComponent file.path = .ofString name) ∧
    (basename.1 = .ok () ∧
      basename.2.bytes = written ++ 0 :: dest.bytes.drop (written.length + 1)) ∧
    ((fullPath.1 = .ok () ↔ file.path.length ≤ Limits.filename - 1) ∧
      (fullPath.1 = .ok () →
        fullPath.2.bytes = file.path ++ 0 :: dest'.bytes.drop (file.path.length + 1)) ∧
      (fullPath.1 ≠ .ok () → fullPath = (.error (.noPath "d_path" nameTooLong), dest'))) ∧
    ((0 : UInt8) ∉ file.path →
      basename.2.text = written ∧ separator ∉ basename.2.text ∧
      (fullPath.1 = .ok () → fullPath.2.text = file.path ∧
        IsLastComponent fullPath.2.text basename.2.text)) := by
  intro basename fullPath written
  have hlast := isLastComponent_lastComponent file.path
  have hpath := fullPathInto_exactly file dest'
  refine ⟨⟨fun name => isLastComponent_iff.symm, ?text⟩,
    ⟨rfl, bytes_overwrite_terminated dest _⟩, hpath, fun h0 => ?names⟩
  case text =>
    intro path name hname hbehind heq
    exact heq ▸ isLastComponent_iff.1 (isLastComponent_ofString hname hbehind)
  case names =>
    have hbasename : basename.2.text = written := text_basenameInto h0 dest
    refine ⟨hbasename, fun hmem => ?_, fun hok => ?_⟩
    · rw [hbasename] at hmem
      exact hlast.1 (List.mem_of_mem_take hmem)
    · have hlen : file.path.length < Limits.filename :=
        Nat.lt_of_le_of_lt (hpath.1.1 hok) (by decide)
      have hfull : fullPath.2.text = file.path := text_fullPathInto h0 hlen dest'
      have huncut : written = lastComponent file.path :=
        take_of_length_lt (Nat.lt_of_le_of_lt (lastComponent_suffix file.path).length_le hlen)
      rw [hfull, hbasename, huncut]
      exact ⟨rfl, hlast⟩

/-- A path that just fits, one that is too long and has its last component cut, and a directory,
whose path ends with a separator. -/
theorem writes_names_exactly_at_limit :
    let fits : Opened := { identity := 1, path := 47 :: List.replicate 254 120 }
    let tooLong : Opened := { identity := 2, path := 47 :: List.replicate 256 120 }
    let dest : Field Limits.filename := .filled _ 0xff
    (0 ∉ fits.path ∧ (fits.view.fullPathInto dest).2.text = fits.path ∧
      (fits.view.basenameInto dest).2.text = List.replicate 254 120) ∧
    (0 ∉ tooLong.path ∧
      tooLong.view.fullPathInto dest = (.error (.noPath "d_path" nameTooLong), dest) ∧
      (tooLong.view.basenameInto dest).2.text = List.replicate 255 120) ∧
    lastComponent (.ofString "/srv/data/") = .ofString "" := by
  intro fits tooLong dest
  obtain ⟨-, -, ⟨hwritten, -, -⟩, hnames⟩ := writes_names_exactly fits dest dest
  obtain ⟨-, -, ⟨hwritten', -, hrefused⟩, hnames'⟩ := writes_names_exactly tooLong dest dest
  obtain ⟨⟨-, htext⟩, -⟩ :=
    writes_names_exactly { identity := 3, path := .ofString "/srv/data/" } dest dest
  have h0 : 0 ∉ fits.path := by decide +kernel
  have h0' : 0 ∉ tooLong.path := by decide +kernel
  refine ⟨⟨h0, ?path, ?name⟩, ⟨h0', ?refused, ?cut⟩, ?directory⟩
  case path => exact ((hnames h0).2.2 (hwritten.2 (by decide +kernel))).1
  case name => exact (hnames h0).1.trans (by decide +kernel)
  case refused => exact hrefused fun hok => absurd (hwritten'.1 hok) (by decide +kernel)
  case cut => exact (hnames' h0').1.trans (by decide +kernel)
  case directory => exact htext "/srv/data/" "" (by simp) (.inr ⟨"/srv/data", by decide⟩) rfl

end Opened

namespace Access

variable {P K S : Type} [KeyedTable K UInt64 PathEntry]

theorem onOpen_eq (file : OpenFile) : (onOpen file : Hook P K S Unit) =
    match file.fullPathInto (.zero _) with
    | (.ok _, filename) => Hook.learn file.identity ({ filename } : PathEntry)
    | (.error fault, _) => throw fault := by
  unfold onOpen OpenFile.fullPathInto OpenFile.nameInto
  cases file.fullPath <;> rfl

theorem name_eq (file : OpenFile) (record : FileRecord) :
    (name file record : Hook P K S (Option FileRecord)) =
      Hook.known? file.identity >>= fun (known : Option PathEntry) =>
        match known with
        | some entry =>
          let filename := entry.filename.terminated
          if excluded filename then pure none else pure (some { record with filename })
        | none =>
          match file.basenameInto record.filename with
          | (.ok _, filename) => pure (some { record with filename })
          | (.error fault, _) => throw fault := by
  unfold name OpenFile.basenameInto OpenFile.nameInto
  refine congrArg (Hook.known? file.identity >>= ·) (funext fun known => ?_)
  cases known with
  | some entry => rfl
  | none => cases file.basename <;> rfl

end Access

end File

end HookTrace
