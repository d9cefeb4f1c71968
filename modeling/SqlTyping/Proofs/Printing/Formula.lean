import SqlTyping.Proofs.Layout.Grouping
import SqlTyping.Proofs.Printing.Tokens

/-!
# Formulas

A formula is an expression of names, numbers, parentheses, `NOT` and binary operators, without the
spans. It is well formed if each of its tokens is one, and if what stands around an operator without
parentheses binds tightly enough. `Formula.text` writes it with one space between the tokens.
-/

namespace SqlTyping

open Grammar

/-! ## Tokens -/

namespace Lexeme

/-- An ASCII character that is no capital. -/
def isSmall (c : Char) : Bool := c.toNat < 128 && !c.isUpper

/-- A word of small letters, digits and `_` or `$` that is not reserved. -/
def isPlainName (name : String) : Bool :=
  match name.toList with
  | [] => false
  | c :: rest =>
    isWordStart c && rest.all isWordChar && (c :: rest).all isSmall && !isReserved name

def isNumeral (digits : String) : Bool := !digits.toList.isEmpty && digits.toList.all Char.isDigit

/-- Is the text read as an operator of this very name before a space? -/
def isSymbol (op : String) : Bool := (operator (op.toList ++ [' '])).any (·.value == op)

def isBinaryOperator (op : String) : Bool := op == "OR" || op == "AND" || isSymbol op

end Lexeme

open Lexeme

/-! ## Formulas and their text -/

inductive Formula where
  | name (value : String)
  | number (digits : String)
  | nested (inner : Formula)
  | negation (operand : Formula)
  | binary (left : Formula) (op : String) (right : Formula)
deriving DecidableEq, Repr

namespace Formula

def tokens : Formula → List String
  | .name value => [value]
  | .number digits => [digits]
  | .nested inner => "(" :: (inner.tokens ++ [")"])
  | .negation operand => "NOT" :: operand.tokens
  | .binary left op right => left.tokens ++ op :: right.tokens

def text (t : Formula) : String := " ".intercalate t.tokens

/-- The level of the outermost operator; what has none is tighter than all of them. -/
def level : Formula → Nat
  | .name _ | .number _ | .nested _ => levels.length
  | .negation _ => negationLevel
  | .binary _ op _ => levelOf op

/-- The number of parentheses and `NOT`s around each other. -/
def depth : Formula → Nat
  | .name _ | .number _ => 0
  | .nested inner => inner.depth + 1
  | .negation operand => operand.depth + 1
  | .binary left _ right => max left.depth right.depth

/-- Operators of one level group to the left, and `NOT` stands over what binds as tightly as it. -/
def WellFormed : Formula → Prop
  | .name value => isPlainName value = true
  | .number digits => isNumeral digits = true
  | .nested inner => inner.WellFormed
  | .negation operand => operand.WellFormed ∧ negationLevel ≤ operand.level
  | .binary left op right =>
    left.WellFormed ∧ right.WellFormed ∧ isBinaryOperator op = true ∧
      levelOf op ≤ left.level ∧ levelOf op < right.level

instance decidableWellFormed : (t : Formula) → Decidable t.WellFormed
  | .name _ => inferInstanceAs (Decidable (_ = _))
  | .number _ => inferInstanceAs (Decidable (_ = _))
  | .nested inner => decidableWellFormed inner
  | .negation operand =>
    have := decidableWellFormed operand
    inferInstanceAs (Decidable (_ ∧ _))
  | .binary left _ right =>
    have := decidableWellFormed left
    have := decidableWellFormed right
    inferInstanceAs (Decidable (_ ∧ _ ∧ _ ∧ _ ∧ _))

end Formula

/-- The formula that an expression is, up to spans. -/
def Expr.formula? : Expr → Option Formula
  | .column none none ⟨value, false, _⟩ _ => some (.name value)
  | .literal (.number digits) _ => some (.number digits)
  | .nested inner _ => inner.formula?.map .nested
  | .unary op operand _ => if op.symbol = "NOT" then operand.formula?.map .negation else none
  | .binary left op right _ =>
    match left.formula?, right.formula? with
    | some left, some right => some (.binary left op.symbol right)
    | _, _ => none
  | _ => none

end SqlTyping
