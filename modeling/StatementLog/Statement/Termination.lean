import StatementLog.Statement.Reader

namespace StatementLog.Statement

def quoteTopic (topic : String) : String :=
  "'" ++ topic ++ "'"

def terminationText : List String → String
  | [] => "TERMINATE CLUSTER;"
  | topics => "TERMINATE CLUSTER DELETE TOPICS (" ++ ", ".intercalate (topics.map quoteTopic) ++ ");"

end StatementLog.Statement
