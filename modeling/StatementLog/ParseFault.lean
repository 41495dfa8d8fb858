namespace StatementLog

inductive ParseFault where
  | malformedId (text : String)
  | emptyEntity (text : String)
  | unknownEntityKind (text : String)
  | unknownAction (text : String)
  | emptyStatement
  | noFromClause (text : String)
  | notDistributed (text : String)
  | notTermination (text : String)
  deriving DecidableEq, Repr

def ParseFault.message : ParseFault → String
  | .malformedId text => s!"Malformed command id '{text}'"
  | .emptyEntity text => s!"Command id '{text}' has an empty entity"
  | .unknownEntityKind text => s!"Unknown command entity type '{text}'"
  | .unknownAction text => s!"Unknown command action '{text}'"
  | .emptyStatement => "Empty statement"
  | .noFromClause text => s!"Query in '{text}' has no FROM clause"
  | .notDistributed text => s!"Statement is not a distributed command: '{text}'"
  | .notTermination text => s!"not a cluster termination: '{text}'"

end StatementLog
