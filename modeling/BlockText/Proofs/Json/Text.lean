/-
The text of a value tells the value.

Values are told apart from the front.  The first character says what kind of value it is; a string
ends at its first quote that is not escaped, a numeral where its characters end, and the items of an
array and the members of an object are told one after another by the same argument.  What is proved of
a value is therefore about its text with any text behind it: two values with equal texts are equal, and
so is what follows them (`writeBefore_inj`).  All that is needed of what follows is that it does not go
on with a numeral, and the writers put brackets, commas and line feeds behind values only.
-/
import BlockText.Json
import BlockText.Proofs.Number.Write

namespace BlockText

namespace Json

/-! ## Strings -/

/-- The value of hexadecimal digits in lower case. -/
def ofHexadecimal (digits : Text) : Nat :=
  digits.foldl (fun n c => 16 * n + if Text.isDigit c then Text.digitValue c else c.toNat - 87) 0

/-- The character that a letter behind a backslash stands for. -/
def ofMark (c : Char) : Char :=
  match c with
  | 'b' => '\x08'
  | 'f' => '\x0c'
  | 'n' => '\n'
  | 'r' => '\r'
  | 't' => '\t'
  | c => c

/-- The character that is written behind a backslash, and what follows it. -/
def unescapeMark? : Text → Option (Char × Text)
  | 'u' :: a :: b :: c :: d :: rest => some (Char.ofNat (ofHexadecimal [a, b, c, d]), rest)
  | c :: rest => some (ofMark c, rest)
  | [] => none

/-- The first character of a string, and what follows it.  There is none at the closing quote. -/
def unescape? : Text → Option (Char × Text)
  | '"' :: _ => none
  | '\\' :: rest => unescapeMark? rest
  | c :: rest => some (c, rest)
  | [] => none

/-- The characters below the space have four digits, which tell them. -/
theorem hexadecimal_control : ∀ n < 0x20,
    (List.replicate (4 - (Text.hexadecimal n).length) '0' ++ Text.hexadecimal n).length = 4 ∧
      ofHexadecimal (List.replicate (4 - (Text.hexadecimal n).length) '0' ++
        Text.hexadecimal n) = n := by
  decide

/-- A character is told from the front of what it is written as. -/
theorem unescape?_escape (c : Char) (rest : Text) :
    unescape? (escape c ++ rest) = some (c, rest) := by
  rw [escape.eq_def]
  split
  case h_8 hquote hslash _ _ _ _ _ =>
    split
    next hc =>
      obtain ⟨hlength, hvalue⟩ := hexadecimal_control c.toNat hc
      rw [List.length_eq_four] at hlength
      obtain ⟨x, y, z, w, hdigits⟩ := hlength
      rw [hdigits] at hvalue
      simp only [List.cons_append, hdigits]
      show some (Char.ofNat (ofHexadecimal [x, y, z, w]), rest) = _
      rw [hvalue, Char.ofNat_toNat]
    next =>
      rw [List.singleton_append, unescape?]
      · exact hquote
      · exact hslash
  all_goals rfl

/-- A string is told from the front, and so is what follows its closing quote. -/
theorem quoted_append_inj {t u rest rest' : Text} (h : quoted t ++ rest = quoted u ++ rest') :
    t = u ∧ rest = rest' := by
  have hbody : t.flatMap escape ++ '"' :: rest = u.flatMap escape ++ '"' :: rest' := by
    rw [quoted, quoted, List.cons_append, List.cons_append, List.append_assoc,
      List.append_assoc] at h
    exact (List.cons.inj h).2
  clear h
  -- along both strings: a character here and the closing quote there are told apart
  induction t generalizing u with
  | nil =>
    cases u with
    | nil => exact ⟨rfl, (List.cons.inj hbody).2⟩
    | cons c u =>
      rw [List.flatMap_cons, List.append_assoc] at hbody
      have hread := congrArg unescape? hbody
      rw [unescape?_escape] at hread
      cases hread
  | cons c t ih =>
    rw [List.flatMap_cons, List.append_assoc] at hbody
    have hread := congrArg unescape? hbody
    rw [unescape?_escape] at hread
    cases u with
    | nil => cases hread
    | cons d u =>
      rw [List.flatMap_cons, List.append_assoc, unescape?_escape] at hread
      obtain ⟨rfl, htail⟩ := Prod.mk.inj (Option.some.inj hread)
      obtain ⟨rfl, hrest⟩ := ih htail
      exact ⟨rfl, hrest⟩

/-! ## Numerals -/

/-- The text does not go on with a numeral. -/
def Parted (rest : Text) : Prop := ∀ c ∈ rest.head?, Numeral.isMark c = false

theorem parted_nil : Parted [] := fun _ h => by cases h

theorem parted_cons {c : Char} (h : Numeral.isMark c = false) (rest : Text) : Parted (c :: rest) :=
  fun _ hd => by cases hd; exact h

theorem numeral_append_inj {t u rest rest' : Text} (ht : ∀ c ∈ t, Numeral.isMark c = true)
    (hu : ∀ c ∈ u, Numeral.isMark c = true) (hr : Parted rest) (hr' : Parted rest')
    (h : t ++ rest = u ++ rest') : t = u ∧ rest = rest' := by
  have hspan := congrArg (List.span Numeral.isMark) h
  rw [Text.span_append ht hr, Text.span_append hu hr'] at hspan
  cases hspan
  exact ⟨rfl, rfl⟩

theorem isMark_signedDecimal (n : Int) : ∀ c ∈ Text.signedDecimal n, Numeral.isMark c = true :=
  fun _ hc => Numeral.isMark_of_integer? (Numeral.integer?_signedDecimal n) hc

theorem signedDecimal_inj {m n : Int} (h : Text.signedDecimal m = Text.signedDecimal n) : m = n := by
  have hread := congrArg Numeral.integer? h
  rw [Numeral.integer?_signedDecimal, Numeral.integer?_signedDecimal] at hread
  exact Option.some.inj hread

theorem write_inj {f : NumberNotation} {x y : Number} (h : f.write x = f.write y) : x = y := by
  have hread := congrArg Number.ofText? h
  rw [Number.ofText?_write, Number.ofText?_write] at hread
  exact Option.some.inj hread

/-- A quantity shows a point or a power of ten. -/
theorem point_or_power_mem_write (f : NumberNotation) (x : Number) :
    '.' ∈ f.write x ∨ 'e' ∈ f.write x := by
  have hunsigned : '.' ∈ f.unsigned x ∨ 'e' ∈ f.unsigned x := by
    rw [NumberNotation.unsigned]
    split
    · refine Or.inl ?_
      rw [NumberNotation.positional]
      split <;> simp
    · refine Or.inr ?_
      rw [NumberNotation.scientific]
      simp
  rw [NumberNotation.write]
  split
  · exact hunsigned.imp (List.mem_cons_of_mem _) (List.mem_cons_of_mem _)
  · exact hunsigned

/-- A count shows neither. -/
theorem signedDecimal_ne_write (n : Int) (f : NumberNotation) (x : Number) :
    Text.signedDecimal n ≠ f.write x := by
  have hdigit : ∀ c ∈ Text.signedDecimal n, c = '-' ∨ Text.isDigit c = true := by
    intro c hc
    rw [Text.signedDecimal] at hc
    split at hc
    · exact (List.mem_cons.mp hc).imp id Text.isDigit_of_mem_decimal
    · exact Or.inr (Text.isDigit_of_mem_decimal hc)
  intro h
  rw [h] at hdigit
  rcases point_or_power_mem_write f x with hmem | hmem
  · exact absurd (hdigit _ hmem) (by decide)
  · exact absurd (hdigit _ hmem) (by decide)

/-! ## Kinds of values -/

/-- What is told from the first character of a value. -/
inductive Kind
  | null | yes | no | numeral | string | array | object

def Kind.ofChar? (c : Char) : Option Kind :=
  match c with
  | 'n' => some null
  | 't' => some yes
  | 'f' => some no
  | '"' => some string
  | '[' => some array
  | '\x7b' => some object
  | c => if Numeral.isMark c then some numeral else none

def kind : Json → Kind
  | null => .null
  | bool true => .yes
  | bool false => .no
  | integer _ | number _ => .numeral
  | string _ => .string
  | array _ => .array
  | object _ => .object

theorem Kind.ofChar?_of_isMark {c : Char} (h : Numeral.isMark c = true) :
    ofChar? c = some .numeral := by
  rw [ofChar?.eq_def]
  split
  case h_7 => rw [if_pos h]
  all_goals exact absurd h Bool.false_ne_true

theorem ofChar?_head_numeral {t : Text} (hne : t ≠ []) (ht : ∀ c ∈ t, Numeral.isMark c = true)
    (rest : Text) : (t ++ rest).head?.bind Kind.ofChar? = some .numeral := by
  cases t with
  | nil => exact absurd rfl hne
  | cons c t => exact Kind.ofChar?_of_isMark (ht c List.mem_cons_self)

/-- The kind of a value is told from its first character. -/
theorem ofChar?_head_writeBefore (rest : Text) (depth : Nat) (x : Json) :
    (x.writeBefore rest depth).head?.bind Kind.ofChar? = some x.kind := by
  cases x with
  | null => rfl
  | bool b => cases b <;> rfl
  | integer n =>
    rw [writeBefore]
    refine ofChar?_head_numeral (fun hnil => ?_) (isMark_signedDecimal n) rest
    have hread := Numeral.integer?_signedDecimal n
    rw [hnil] at hread
    cases hread
  | number x =>
    rw [writeBefore]
    refine ofChar?_head_numeral (fun hnil => ?_) (Number.isMark_write numbers x) rest
    have hmem := point_or_power_mem_write numbers x
    rw [hnil] at hmem
    simp at hmem
  | string t => rfl
  | array xs => cases xs <;> rfl
  | object members =>
    cases members with
    | nil => rfl
    | cons m ms => cases m; rfl

theorem kind_eq_of_writeBefore {rest rest' : Text} {depth : Nat} {x y : Json}
    (h : x.writeBefore rest depth = y.writeBefore rest' depth) : x.kind = y.kind := by
  have hhead := ofChar?_head_writeBefore rest depth x
  rw [h, ofChar?_head_writeBefore] at hhead
  exact (Option.some.inj hhead).symm

/-! ## Values -/

/-- A line of its own parts what stands before it. -/
theorem parted_of_feed {rest : Text} (h : rest.head? = some '\n') : Parted rest := by
  intro c hc
  rw [h] at hc
  cases hc
  decide

theorem feed_ne_comma {rest t : Text} (h : rest.head? = some '\n') : rest ≠ ',' :: t := by
  rintro rfl
  exact absurd (Option.some.inj h) (by decide)

/-- What stands behind a value in an array. -/
theorem parted_items {rest : Text} (hr : rest.head? = some '\n') (depth : Nat) (xs : List Json) :
    Parted (writeItems rest depth xs) := by
  cases xs with
  | nil => exact parted_of_feed hr
  | cons x xs => exact parted_cons (by decide) _

/-- What stands behind a value in an object. -/
theorem parted_members {rest : Text} (hr : rest.head? = some '\n') (depth : Nat)
    (members : List (Text × Json)) : Parted (writeMembers rest depth members) := by
  cases members with
  | nil => exact parted_of_feed hr
  | cons m ms => exact parted_cons (by decide) _

/-- A numeral is told from the front, and so is whether it is a count or a quantity. -/
theorem numeral_inj {rest rest' : Text} {depth : Nat} {x y : Json} (hx : x.kind = .numeral)
    (hy : y.kind = .numeral) (hr : Parted rest) (hr' : Parted rest')
    (h : x.writeBefore rest depth = y.writeBefore rest' depth) : x = y ∧ rest = rest' := by
  match x, y, hx, hy with
  | integer m, integer n, _, _ =>
    obtain ⟨htext, hrest⟩ :=
      numeral_append_inj (isMark_signedDecimal m) (isMark_signedDecimal n) hr hr' h
    exact ⟨congrArg integer (signedDecimal_inj htext), hrest⟩
  | number a, number b, _, _ =>
    obtain ⟨htext, hrest⟩ :=
      numeral_append_inj (Number.isMark_write numbers a) (Number.isMark_write numbers b) hr hr' h
    exact ⟨congrArg number (write_inj htext), hrest⟩
  | integer m, number b, _, _ =>
    have htext :=
      (numeral_append_inj (isMark_signedDecimal m) (Number.isMark_write numbers b) hr hr' h).1
    exact absurd htext (signedDecimal_ne_write m numbers b)
  | number a, integer n, _, _ =>
    have htext :=
      (numeral_append_inj (Number.isMark_write numbers a) (isMark_signedDecimal n) hr hr' h).1
    exact absurd htext.symm (signedDecimal_ne_write n numbers a)

/-- What stands on a line of its own is told from what stands there. -/
theorem line_inj {c d : Char} {depth : Nat} {t u : Text}
    (h : c :: (indent depth ++ t) = d :: (indent depth ++ u)) : t = u :=
  List.append_cancel_left (List.cons.inj h).2

/-- A bracket on a line of its own is none behind the first bracket. -/
theorem closing_ne_line {c d : Char} {depth : Nat} {t u : Text} (hd : d ≠ '\n') :
    c :: d :: t ≠ c :: (indent depth ++ u) := by
  intro h
  exact hd (List.cons.inj (List.cons.inj h).2).1

mutual

/-- A value is told from the front of its text, and so is what follows it. -/
theorem writeBefore_inj {rest rest' : Text} (hr : Parted rest) (hr' : Parted rest') (depth : Nat)
    (x y : Json) (h : x.writeBefore rest depth = y.writeBefore rest' depth) :
    x = y ∧ rest = rest' := by
  have hkind := kind_eq_of_writeBefore h
  match x, y, hkind with
  | null, null, _ => exact ⟨rfl, List.append_cancel_left h⟩
  | bool true, bool true, _ => exact ⟨rfl, List.append_cancel_left h⟩
  | bool false, bool false, _ => exact ⟨rfl, List.append_cancel_left h⟩
  | integer m, y, hk => exact numeral_inj rfl hk.symm hr hr' h
  | number m, y, hk => exact numeral_inj rfl hk.symm hr hr' h
  | string t, string u, _ =>
    obtain ⟨rfl, hrest⟩ := quoted_append_inj h
    exact ⟨rfl, hrest⟩
  | array [], array [], _ =>
    cases h
    exact ⟨rfl, rfl⟩
  | array [], array (y :: ys), _ => exact absurd h (closing_ne_line (by decide))
  | array (x :: xs), array [], _ => exact absurd h.symm (closing_ne_line (by decide))
  | array (x :: xs), array (y :: ys), _ =>
    obtain ⟨rfl, hitems⟩ := writeBefore_inj (parted_items rfl depth xs)
      (parted_items rfl depth ys) (depth + 1) x y (line_inj h)
    obtain ⟨rfl, hrest⟩ := writeItems_inj rfl rfl depth xs ys hitems
    exact ⟨rfl, (List.cons.inj (List.append_cancel_left hrest)).2⟩
  | object [], object [], _ =>
    cases h
    exact ⟨rfl, rfl⟩
  | object [], object ((_, _) :: _), _ => exact absurd h (closing_ne_line (by decide))
  | object ((_, _) :: _), object [], _ => exact absurd h.symm (closing_ne_line (by decide))
  | object ((key, x) :: xs), object ((key', y) :: ys), _ =>
    obtain ⟨rfl, hvalue⟩ := quoted_append_inj (line_inj h)
    obtain ⟨rfl, hmembers⟩ := writeBefore_inj (parted_members rfl depth xs)
      (parted_members rfl depth ys) (depth + 1) x y (List.append_cancel_left hvalue)
    obtain ⟨rfl, hrest⟩ := writeMembers_inj rfl rfl depth xs ys hmembers
    exact ⟨rfl, (List.cons.inj (List.append_cancel_left hrest)).2⟩

/-- The items behind the first one are told up to the line of the bracket. -/
theorem writeItems_inj {rest rest' : Text} (hr : rest.head? = some '\n')
    (hr' : rest'.head? = some '\n') (depth : Nat) (xs ys : List Json)
    (h : writeItems rest depth xs = writeItems rest' depth ys) : xs = ys ∧ rest = rest' := by
  match xs, ys with
  | [], [] => exact ⟨rfl, h⟩
  | [], _ :: _ => exact absurd h (feed_ne_comma hr)
  | _ :: _, [] => exact absurd h.symm (feed_ne_comma hr')
  | x :: xs, y :: ys =>
    obtain ⟨rfl, hitems⟩ := writeBefore_inj (parted_items hr depth xs)
      (parted_items hr' depth ys) (depth + 1) x y (line_inj h)
    obtain ⟨rfl, hrest⟩ := writeItems_inj hr hr' depth xs ys hitems
    exact ⟨rfl, hrest⟩

/-- The members behind the first one are told up to the line of the bracket. -/
theorem writeMembers_inj {rest rest' : Text} (hr : rest.head? = some '\n')
    (hr' : rest'.head? = some '\n') (depth : Nat) (xs ys : List (Text × Json))
    (h : writeMembers rest depth xs = writeMembers rest' depth ys) : xs = ys ∧ rest = rest' := by
  match xs, ys with
  | [], [] => exact ⟨rfl, h⟩
  | [], (_, _) :: _ => exact absurd h (feed_ne_comma hr)
  | (_, _) :: _, [] => exact absurd h.symm (feed_ne_comma hr')
  | (key, x) :: xs, (key', y) :: ys =>
    obtain ⟨rfl, hvalue⟩ := quoted_append_inj (line_inj h)
    obtain ⟨rfl, hmembers⟩ := writeBefore_inj (parted_members hr depth xs)
      (parted_members hr' depth ys) (depth + 1) x y (List.append_cancel_left hvalue)
    obtain ⟨rfl, hrest⟩ := writeMembers_inj hr hr' depth xs ys hmembers
    exact ⟨rfl, hrest⟩

end

/-- The text of a value tells the value. -/
theorem pretty_inj {x y : Json} : x.pretty = y.pretty ↔ x = y :=
  ⟨fun h => (writeBefore_inj parted_nil parted_nil 0 x y h).1, congrArg pretty⟩

end Json
end BlockText
