import HookTrace.Limits
import HookTrace.Fault

/-!
# HookTrace.Mysql.Ports

Which connections are taken for MySQL: those to the well-known port and to one more that can be
configured. Port zero never stands for a port.
-/

namespace HookTrace.Mysql

structure MysqlConfig where
  target : UInt32 := 0
  port : UInt16 := Limits.mysqlPort
deriving DecidableEq

namespace MysqlConfig

def tracksPort (config : MysqlConfig) (port : UInt16) : Bool :=
  port == Limits.mysqlPort || (config.port != 0 && port == config.port)

/-- Without a port only the well-known one is tracked. -/
def ofPort (tgid : Option UInt32) (port : Option UInt16) : Except ConfigFault MysqlConfig :=
  let port := port.getD Limits.mysqlPort
  if port == 0 then .error .zeroPort
  else .ok { target := tgid.getD 0, port }

end MysqlConfig

end HookTrace.Mysql
