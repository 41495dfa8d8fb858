import StatementLog.Broker
import StatementLog.Command.Basic

namespace StatementLog

class Executor (ε : Type) where
  apply : ε → Broker → Command → Mode → Except Failure Effect × ε × Broker
  finishReplay : ε → Except Failure Unit × ε

end StatementLog
