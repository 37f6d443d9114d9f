/-
Written numbers read back.

Every notation lays out the same digits, with zeros in front of them or behind them and the point or
a power of ten to match.  The reader drops the zeros in front and counts the others into the place
(`Numeral.rank_digits`), so it finds the decimal that was written, whose rank is the number's own:
`ofText?_write`.
-/
import BlockText.Number.Notation
import BlockText.Proofs.Number.Numeral
import BlockText.Proofs.Number.Shortest

namespace BlockText

namespace Text

/-! ## Digits -/

theorem isDigit_eq (c : Char) : isDigit c = c.isDigit := by
  rw [isDigit, Char.isDigit]
  rfl

theorem isDigit_of_mem_decimal {m : Nat} {c : Char} (h : c ∈ decimal m) : isDigit c = true := by
  rw [isDigit_eq]
  exact Nat.isDigit_of_mem_toDigits (by decide) (by decide) h

theorem isDigit_of_mem_zeros {k : Nat} {c : Char} (h : c ∈ List.replicate k '0') :
    isDigit c = true := by
  rw [(List.mem_replicate.mp h).2]
  decide

theorem ofDigits_eq (t : Text) : ofDigits t = Nat.ofDigitChars 10 t 0 := rfl

theorem ofDigits_decimal (m : Nat) : ofDigits (decimal m) = m := by
  rw [ofDigits_eq]
  exact Nat.ofDigitChars_toDigits (by decide) (by decide)

theorem ofDigits_decimal_zeros (m k : Nat) :
    ofDigits (decimal m ++ List.replicate k '0') = m * 10 ^ k := by
  have h := ofDigits_decimal m
  rw [ofDigits_eq] at h
  rw [ofDigits_eq, Nat.ofDigitChars_append, h, Nat.ofDigitChars_replicate_zero, Nat.mul_comm]

theorem decimal_ne_nil (m : Nat) : decimal m ≠ [] := Nat.toDigits_ne_nil

/-- The first digit of a number is a zero for zero only. -/
theorem head?_decimal {m : Nat} (hm : m ≠ 0) : (decimal m).head? ≠ some '0' := by
  induction m using Nat.strongRecOn with
  | ind m ih =>
    rw [decimal, Nat.toDigits_eq_if (by decide)]
    split
    next hlt =>
      intro h
      have hdigit : m.digitChar = '0' := Option.some.inj h
      revert hdigit
      have hcases : ∀ k : Fin 10, (k : Nat) ≠ 0 → (k : Nat).digitChar ≠ '0' := by decide
      exact hcases ⟨m, hlt⟩ hm
    next hge =>
      have hquot : m / 10 ≠ 0 := by omega
      rw [List.head?_append_of_ne_nil _ Nat.toDigits_ne_nil]
      exact ih (m / 10) (by omega) hquot

theorem dropWhile_zeros {z : Nat} {t : Text} (h : t.head? ≠ some '0') :
    (List.replicate z '0' ++ t).dropWhile (· == '0') = t :=
  dropWhile_append_eq (fun _ hd => (List.mem_replicate.mp hd).2) h

end Text

namespace Numeral

/-! ## The rank of written digits -/

/-- Zeros in front of the digits change nothing, and zeros behind them move the place. -/
theorem rank_digits {negative : Bool} {z m k : Nat} {place : Int} (hm : m ≠ 0)
    (hfinite : Number.rankOfDecimal m (place + k) < 2047 * Number.binade)
    (hne : Number.rankOfDecimal m (place + k) ≠ 0) :
    rank ⟨negative, List.replicate z '0' ++ (Text.decimal m ++ List.replicate k '0'), place⟩ =
      Number.rankOfDecimal m (place + k) := by
  have hhead : (Text.decimal m ++ List.replicate k '0').head? ≠ some '0' := by
    rw [List.head?_append_of_ne_nil _ (Text.decimal_ne_nil m)]
    exact Text.head?_decimal hm
  have hempty : List.isEmpty (Text.decimal m ++ List.replicate k '0') = false := by
    simp [Text.decimal_ne_nil m]
  obtain ⟨hlow, hhigh⟩ := Number.decimal_bounds hm hfinite hne
  have htop : ((Text.decimal m ++ List.replicate k '0').length : Int) + place =
      (Text.decimal m).length + (place + k) := by
    rw [List.length_append, List.length_replicate]
    omega
  simp only [rank, Text.dropWhile_zeros hhead, hempty, htop, Bool.false_or]
  rw [if_neg (by simpa using hlow), if_neg (by omega), Text.ofDigits_decimal_zeros,
    Number.rankOfDecimal_mul_pow]

theorem rank_zeros {negative : Bool} {place : Int} (z : Nat) :
    rank ⟨negative, List.replicate z '0', place⟩ = 0 := by
  have hdrop : (List.replicate z '0').dropWhile (· == '0') = [] := by
    have h := @Text.dropWhile_zeros z [] (by simp)
    rwa [List.append_nil] at h
  simp only [rank, hdrop, List.isEmpty_nil, Bool.true_or, if_true]

/-! ## The parts of a numeral -/

theorem head?_digits {t u : Text} (hne : t ≠ []) (ht : ∀ c ∈ t, Text.isDigit c = true) :
    ∀ c ∈ (t ++ u).head?, Text.isDigit c = true := by
  intro c hc
  rw [List.head?_append_of_ne_nil _ hne] at hc
  exact ht c (List.mem_of_mem_head? hc)

/-- Digits, digits behind a point if there is one, and a power if there is one. -/
theorem ofText?_parts {whole part point tail : Text} {power : Int} (hne : whole ≠ [])
    (hw : ∀ c ∈ whole, Text.isDigit c = true) (hp : ∀ c ∈ part, Text.isDigit c = true)
    (hpoint : (point = [] ∧ part = []) ∨ point = '.' :: part) (ht : power? tail = some power)
    (hhead : ∀ c ∈ tail.head?, c = 'e') :
    ofText? (whole ++ (point ++ tail)) = some ⟨false, whole ++ part, power - part.length⟩ := by
  have htail : ∀ c ∈ tail.head?, Text.isDigit c = false := by
    intro c hc
    rw [hhead c hc]
    decide
  have hrest : ∀ c ∈ (point ++ tail).head?, Text.isDigit c = false := by
    intro c hc
    rcases hpoint with ⟨rfl, -⟩ | rfl
    · exact htail c hc
    · cases hc
      decide
  have hfraction : fraction (point ++ tail) = (part, tail) := by
    rcases hpoint with ⟨rfl, rfl⟩ | rfl
    · rw [List.nil_append]
      unfold fraction
      split
      · cases hhead '.' rfl
      · rfl
    · exact Text.span_append hp htail
  have hempty : (List.isEmpty whole && List.isEmpty part) = false := by
    simp [hne]
  simp only [ofText?, splitSign_of_digit (head?_digits hne hw), Text.span_append hw hrest,
    hfraction, hempty, Bool.false_eq_true, if_false, ht, Option.map_some]

theorem ofText?_minus {t : Text} (h : ∀ c ∈ t.head?, Text.isDigit c = true) {n : Numeral}
    (ht : ofText? t = some n) : ofText? ('-' :: t) = some { n with negative := true } := by
  simp only [ofText?, splitSign_of_digit h] at ht
  simp only [ofText?, splitSign]
  split at ht
  · cases ht
  next he =>
    rw [if_neg he]
    obtain ⟨power, hpower, rfl⟩ := Option.map_eq_some_iff.mp ht
    rw [hpower]
    rfl

/-! ## Written powers -/

theorem integer?_decimal (m : Nat) : integer? (Text.decimal m) = some (m : Int) := by
  have h := IsInteger.plain (Text.decimal_ne_nil m) (fun c => Text.isDigit_of_mem_decimal)
  rw [Text.ofDigits_decimal] at h
  exact integer?_eq_some_iff.mpr h

theorem integer?_plus (m : Nat) : integer? ('+' :: Text.decimal m) = some (m : Int) := by
  have h := IsInteger.plus (Text.decimal_ne_nil m) (fun c => Text.isDigit_of_mem_decimal)
  rw [Text.ofDigits_decimal] at h
  exact integer?_eq_some_iff.mpr h

theorem integer?_minus (m : Nat) : integer? ('-' :: Text.decimal m) = some (-(m : Int)) := by
  have h := IsInteger.minus (Text.decimal_ne_nil m) (fun c => Text.isDigit_of_mem_decimal)
  rw [Text.ofDigits_decimal] at h
  exact integer?_eq_some_iff.mpr h

theorem integer?_signedDecimal (n : Int) : integer? (Text.signedDecimal n) = some n := by
  rw [Text.signedDecimal]
  split
  · rw [integer?_minus]
    exact congrArg some (by omega)
  · rw [integer?_decimal]
    exact congrArg some (by omega)

/-! ## Written numerals -/

/-- The text writes the digits of `m`, with zeros in front and behind, at this place, and has no
sign. -/
def Writes (t : Text) (m : Nat) (place : Int) : Prop :=
  (∀ c ∈ t.head?, Text.isDigit c = true) ∧
    ∃ z k : Nat, ofText? t =
      some ⟨false, List.replicate z '0' ++ (Text.decimal m ++ List.replicate k '0'), place - k⟩

/-- Digits, digits behind a point if there is one, and a power if there is one write what all the digits
write. -/
theorem writes_of_parts {whole part point tail : Text} {power place : Int} {m : Nat} (z k : Nat)
    (hne : whole ≠ [])
    (hd : whole ++ part =
      List.replicate z '0' ++ (Text.decimal m ++ List.replicate k '0'))
    (hpoint : (point = [] ∧ part = []) ∨ point = '.' :: part) (ht : power? tail = some power)
    (hhead : ∀ c ∈ tail.head?, c = 'e') (hplace : place = power + k - part.length) :
    Writes (whole ++ (point ++ tail)) m place := by
  have hdigits : ∀ c ∈ whole ++ part, Text.isDigit c = true := by
    intro c hc
    rw [hd, List.mem_append, List.mem_append] at hc
    rcases hc with hc | hc | hc
    · exact Text.isDigit_of_mem_zeros hc
    · exact Text.isDigit_of_mem_decimal hc
    · exact Text.isDigit_of_mem_zeros hc
  have hwhole : ∀ c ∈ whole, Text.isDigit c = true :=
    fun c hc => hdigits c (List.mem_append_left part hc)
  have hpart : ∀ c ∈ part, Text.isDigit c = true :=
    fun c hc => hdigits c (List.mem_append_right whole hc)
  have hq : place - k = power - part.length := by omega
  refine ⟨head?_digits hne hwhole, z, k, ?_⟩
  rw [ofText?_parts hne hwhole hpart hpoint ht hhead, hd, hq]

/-- Digits with a point among them. -/
theorem writes_of_point {whole part : Text} {place : Int} {m : Nat} (z k : Nat) (hne : whole ≠ [])
    (hd : whole ++ part =
      List.replicate z '0' ++ (Text.decimal m ++ List.replicate k '0'))
    (hplace : place = k - part.length) : Writes (whole ++ '.' :: part) m place := by
  have h : Writes (whole ++ ('.' :: part ++ [])) m place :=
    writes_of_parts z k hne hd (Or.inr rfl) (rfl : power? [] = some 0) (fun c hc => by cases hc)
      (by omega)
  rwa [List.append_nil] at h

theorem take_decimal_ne_nil (m : Nat) {n : Nat} (hn : 0 < n) : (Text.decimal m).take n ≠ [] := by
  intro hnil
  rcases List.take_eq_nil_iff.mp hnil with hzero | hnil
  · omega
  · exact Text.decimal_ne_nil m hnil

/-- Digits and a point somewhere in them or in front of them. -/
theorem writes_positional (m : Nat) (exponent : Int) :
    Writes (NumberNotation.positional (Text.decimal m) exponent) m
      (exponent + 1 - (Text.decimal m).length) := by
  unfold NumberNotation.positional
  split
  next h =>
    -- the point stands in front of the digits, with zeros between them
    obtain ⟨z, hz⟩ : ∃ z : Nat, (-exponent).toNat - 1 = z := ⟨_, rfl⟩
    rw [hz]
    show Writes (['0'] ++ '.' :: (List.replicate z '0' ++ Text.decimal m)) m _
    refine writes_of_point (z + 1) 0 (List.cons_ne_nil '0' []) ?_ ?_
    · rw [List.replicate_succ, List.replicate_zero, List.append_nil]
      rfl
    · rw [List.length_append, List.length_replicate]
      omega
  next h =>
    obtain ⟨whole, hwhole⟩ : ∃ whole : Nat, exponent.toNat + 1 = whole := ⟨_, rfl⟩
    have hne : (Text.decimal m).take whole ++
        List.replicate (whole - (Text.decimal m).length) '0' ≠ [] :=
      List.append_ne_nil_of_left_ne_nil (take_decimal_ne_nil m (by omega)) _
    simp only [hwhole]
    split
    next hdrop =>
      -- the point stands behind the digits, with zeros between them, and a zero behind it
      have hshort : (Text.decimal m).length ≤ whole :=
        List.drop_eq_nil_iff.mp (List.isEmpty_iff.mp hdrop)
      refine writes_of_point 0 (whole - (Text.decimal m).length + 1) hne ?_ ?_
      · rw [List.take_of_length_le hshort, List.append_assoc, List.replicate_succ']
        rfl
      · rw [List.length_singleton]
        omega
    next hdrop =>
      -- the point stands among the digits
      have hlong : ¬ (Text.decimal m).length ≤ whole := by
        intro hle
        exact hdrop (List.isEmpty_iff.mpr (List.drop_eq_nil_iff.mpr hle))
      have hnone : whole - (Text.decimal m).length = 0 := by omega
      refine writes_of_point 0 0 hne ?_ ?_
      · rw [hnone, List.replicate_zero, List.append_nil, List.append_nil, List.nil_append,
          List.take_append_drop]
      · rw [List.length_drop]
        omega

/-- One digit, the others behind a point, and a power. -/
theorem writes_scientific (f : NumberNotation) (m : Nat) (exponent : Int) :
    Writes (f.scientific (Text.decimal m) exponent) m
      (exponent + 1 - (Text.decimal m).length) := by
  have hpos := Number.length_decimal_pos m
  have hsigned : integer? ((if f.plusSign && decide (0 ≤ exponent) then ['+'] else []) ++
      Text.signedDecimal exponent) = some exponent := by
    split
    next hplus =>
      rw [Bool.and_eq_true, decide_eq_true_eq] at hplus
      rw [Text.signedDecimal, if_neg (by omega), List.singleton_append, integer?_plus]
      exact congrArg some (by omega)
    · exact integer?_signedDecimal exponent
  have hpower : power? ('e' :: ((if f.plusSign && decide (0 ≤ exponent) then ['+'] else []) ++
      Text.signedDecimal exponent)) = some exponent := by
    rw [power?, if_pos (by decide), hsigned]
  have hpoint : ((if ((Text.decimal m).drop 1).isEmpty then [] else '.' :: (Text.decimal m).drop 1) =
        [] ∧ (Text.decimal m).drop 1 = []) ∨
      (if ((Text.decimal m).drop 1).isEmpty then [] else '.' :: (Text.decimal m).drop 1) =
        '.' :: (Text.decimal m).drop 1 := by
    split
    next he => exact Or.inl ⟨rfl, List.isEmpty_iff.mp he⟩
    · exact Or.inr rfl
  have htext : f.scientific (Text.decimal m) exponent = (Text.decimal m).take 1 ++
      ((if ((Text.decimal m).drop 1).isEmpty then [] else '.' :: (Text.decimal m).drop 1) ++
        'e' :: ((if f.plusSign && decide (0 ≤ exponent) then ['+'] else []) ++
          Text.signedDecimal exponent)) := by
    rw [NumberNotation.scientific, List.append_assoc, List.append_assoc]
    rfl
  rw [htext]
  refine writes_of_parts 0 0 (take_decimal_ne_nil m Nat.one_pos) ?_ hpoint hpower
    (fun c hc => by cases hc; rfl) ?_
  · rw [List.take_append_drop, List.replicate_zero, List.append_nil, List.nil_append]
  · rw [List.length_drop]
    omega

end Numeral

namespace Number

/-- What a number's magnitude is written as is read as its digits. -/
theorem writes_unsigned (f : NumberNotation) (x : Number) :
    Numeral.Writes (f.unsigned x) (x.shortest f.tie).digits (x.shortest f.tie).place := by
  have hplace : (x.shortest f.tie).place + (Text.decimal (x.shortest f.tie).digits).length - 1 + 1 -
      (Text.decimal (x.shortest f.tie).digits).length = (x.shortest f.tie).place := by
    omega
  rw [NumberNotation.unsigned]
  split
  · have h := Numeral.writes_positional (x.shortest f.tie).digits
      ((x.shortest f.tie).place + (Text.decimal (x.shortest f.tie).digits).length - 1)
    rwa [hplace] at h
  · have h := Numeral.writes_scientific f (x.shortest f.tie).digits
      ((x.shortest f.tie).place + (Text.decimal (x.shortest f.tie).digits).length - 1)
    rwa [hplace] at h

/-- The written digits of a number have its rank. -/
theorem rank_written {x : Number} {tie : Tie} {negative : Bool} (z k : Nat) :
    Numeral.rank ⟨negative, List.replicate z '0' ++
      (Text.decimal (x.shortest tie).digits ++ List.replicate k '0'),
      (x.shortest tie).place - k⟩ = x.rank := by
  by_cases hx : x.rank = 0
  · have hzero : Text.decimal 0 = List.replicate 1 '0' := by decide
    rw [shortest_of_zero hx, hzero, List.replicate_append_replicate,
      List.replicate_append_replicate, Numeral.rank_zeros, hx]
  · have hrank := shortest_readsBack hx tie
    rw [Decimal.HasRank] at hrank
    have hplace : (x.shortest tie).place - k + k = (x.shortest tie).place := by omega
    have hfinite : x.rank < 2047 * binade := x.finite
    rw [Numeral.rank_digits (shortest_digits_ne_zero hx tie), hplace, hrank]
    · rwa [hplace, hrank]
    · rwa [hplace, hrank]

theorem exists_numeral_write (f : NumberNotation) (x : Number) :
    ∃ n, Numeral.ofText? (f.write x) = some n ∧ n.negative = x.negative ∧ n.rank = x.rank := by
  obtain ⟨hhead, z, k, hread⟩ := writes_unsigned f x
  rw [NumberNotation.write]
  split
  next hneg =>
    exact ⟨_, Numeral.ofText?_minus hhead hread, hneg.symm, rank_written z k⟩
  next hneg => exact ⟨_, hread, (eq_false_of_ne_true hneg).symm, rank_written z k⟩

theorem isMark_write (f : NumberNotation) (x : Number) :
    ∀ c ∈ f.write x, Numeral.isMark c = true := by
  obtain ⟨n, hn, -⟩ := exists_numeral_write f x
  exact fun c hc => Numeral.isMark_of_ofText? hn hc

/-- A written number is read as the number. -/
theorem ofText?_write (f : NumberNotation) (x : Number) : ofText? (f.write x) = some x := by
  obtain ⟨n, hn, hnegative, hrank⟩ := exists_numeral_write f x
  have hspace : ∀ c ∈ f.write x, Text.isSpace c = false := fun c hc =>
    Numeral.isSpace_eq_false_of_isMark (isMark_write f x c hc)
  have htrim : Text.trim (f.write x) = f.write x :=
    Text.trim_of_trimmed ⟨fun c hc => hspace c (List.mem_of_mem_head? hc),
      fun c hc => hspace c (List.mem_of_mem_getLast? hc)⟩
  rw [ofText?, htrim, hn]
  show (if h : n.rank < 2047 * Nat.pow 2 52 then some (⟨n.negative, n.rank, h⟩ : Number) else none) = _
  rw [dif_pos (by rw [hrank]; exact x.finite)]
  congr 1
  cases x
  congr 1

end Number
end BlockText
