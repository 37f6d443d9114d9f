/-
Signatures of definitions.

`Signature.read` reads a name with typed slots in parentheses in it.  A slot for a value leaves a
seam in the name.  A slot for steps leaves nothing: the literal parts on its two sides become one,
because the steps are written after the call and not in it.
-/
import BlockText.Name.Basic

namespace BlockText

/-- What a definition is called and takes. -/
structure Signature where
  /-- The canonical name, with a seam for each slot in `params`. -/
  name : Text
  params : List Parameter
  blockLists : List Parameter

namespace Signature

/-- A slot being read. -/
structure Slot where
  /-- The index of the parenthesis that opened it. -/
  opened : Nat
  /-- The characters of the name, the last one first. -/
  name : Text
  /-- The characters of the type, the last one first; none before the colon. -/
  type : Option Text

/-- A signature being read. -/
structure State where
  /-- The characters of the name, the last one first, with a seam for each value. -/
  literal : Text
  /-- The slots for values, the last one first. -/
  params : List Parameter
  /-- The slots for steps, the last one first. -/
  blockLists : List Parameter
  /-- The slot that is open. -/
  slot : Option Slot

namespace State

def start : State := ⟨[], [], [], none⟩

/-- Puts a finished slot into the signature. -/
def addParameter (s : State) (p : Parameter) : State :=
  if p.isBlockList then { s with blockLists := p :: s.blockLists, slot := none }
  else { s with literal := seam.reverse ++ s.literal, params := p :: s.params, slot := none }

/-- Takes a character outside all slots. -/
def stepOutside (s : State) (index : Nat) (c : Char) : Except (NameFault × Nat) State :=
  match c with
  | '[' => .error (.openBracket, index)
  | ')' => .error (.closeParenthesis, index)
  | '(' => .ok { s with slot := some ⟨index, [], none⟩ }
  | c => .ok { s with literal := c :: s.literal }

/-- Takes a character of a slot. -/
def stepInside (s : State) (slot : Slot) (index : Nat) (c : Char) :
    Except (NameFault × Nat) State :=
  match c, slot.type with
  | '(', _ => .error (.openParenthesis, index)
  | '[', _ => .error (.openBracket, index)
  | ':', some _ => .error (.secondColon, index)
  | ':', none => .ok { s with slot := some { slot with type := some [] } }
  | ')', type =>
    let name := Text.trim slot.name.reverse
    let type := Text.trim (type.getD []).reverse
    if name.isEmpty || type.isEmpty then .error (.incompleteParameter, slot.opened)
    else .ok (s.addParameter ⟨name, type⟩)
  | c, some type => .ok { s with slot := some { slot with type := some (c :: type) } }
  | c, none => .ok { s with slot := some { slot with name := c :: slot.name } }

def step (s : State) (index : Nat) (c : Char) : Except (NameFault × Nat) State :=
  match s.slot with
  | none => s.stepOutside index c
  | some slot => s.stepInside slot index c

/-- Takes all characters, of which the first has this index. -/
def run (s : State) (index : Nat) : Text → Except (NameFault × Nat) State
  | [] => .ok s
  | c :: rest => do run (← s.step index c) (index + 1) rest

/-- The signature, where no slot is open. -/
def finish (s : State) (index : Nat) : Except (NameFault × Nat) Signature :=
  let name := Text.collapse s.literal.reverse
  if s.slot.isSome then .error (.missingClose, index)
  else if name.isEmpty then .error (.namelessDefinition, 0)
  else if Number.isNumeral name then .error (.numeric, 0)
  else .ok ⟨name, s.params.reverse, s.blockLists.reverse⟩

end State

/-- Reads all of the text as one signature. -/
def read (text : Text) : Except NameError Signature :=
  (do (← State.start.run 0 text).finish text.length : Except (NameFault × Nat) Signature).mapError
    fun (fault, index) => ⟨fault, text, index⟩

end Signature
end BlockText
