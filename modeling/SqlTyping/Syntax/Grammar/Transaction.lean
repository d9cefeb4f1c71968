import SqlTyping.Syntax.Grammar.Name

/-!
# Transaction control
-/

namespace SqlTyping.Grammar

open Rule

def isolationLevel : Rule Unit := do
  if ← found (keyword "SERIALIZABLE") then return
  else if ← found (keywords ["REPEATABLE", "READ"]) then return
  else if ← found (keywords ["READ", "COMMITTED"]) then return
  else if ← found (keywords ["READ", "UNCOMMITTED"]) then return
  else fail "isolation level"

def transactionMode : Rule Unit := do
  if ← found (keywords ["ISOLATION", "LEVEL"]) then isolationLevel
  else if ← found (keyword "READ") then
    let _ ← anyOf ["WRITE", "ONLY"]
    return
  else
    let _ ← found (keyword "NOT")
    let _ ← keyword "DEFERRABLE"
    return

/-- Modes of a transaction, with or without commas between them. -/
def transactionModes : Rule Unit := do
  let mode : Rule (Option Unit) := do
    match ← maybe transactionMode with
    | some _ =>
      let _ ← found (punct ",")
      return some ()
    | none => return none
  let _ ← many mode
  return

def workWord : Rule Bool := found (anyOf ["TRANSACTION", "WORK"])

def startTransaction : Rule Bool := do
  if ← found (keyword "BEGIN") then return true else found (keywords ["START", "TRANSACTION"])

/-- One of two keywords. -/
def either (first second : String) : Rule Bool := do
  if ← found (keyword first) then return true else found (keyword second)

def toSavepoint : Rule Ident := do
  let _ ← keyword "TO"
  let _ ← found (keyword "SAVEPOINT")
  ident

def transactionKind : Rule TransactionKind := do
  if ← startTransaction then
    let _ ← workWord
    transactionModes
    return .begin
  else if ← either "COMMIT" "END" then
    let _ ← workWord
    return .commit
  else if ← either "ROLLBACK" "ABORT" then
    let _ ← workWord
    return .rollback (← maybe toSavepoint)
  else if ← found (keyword "SAVEPOINT") then return .savepoint (← ident)
  else if ← found (keyword "RELEASE") then
    let _ ← found (keyword "SAVEPOINT")
    return .release (← ident)
  else fail "statement"

def transaction : Rule Transaction := do
  let start ← begin
  let kind ← transactionKind
  return { kind, span := ← spanFrom start }

end SqlTyping.Grammar
