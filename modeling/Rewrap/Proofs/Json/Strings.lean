import Rewrap.Json.Reader
import Rewrap.Json.Record

/-! # Written strings

A text that is written with escapes is read as it is written, and stands for the text again. -/

namespace Rewrap.Json

/-! ## Hexadecimal digits -/

theorem hexValue?_hexDigit {n : Nat} (h : n < 16) : hexValue? (hexDigit n) = some n := by
  have hall : ∀ m : Fin 16, hexValue? (hexDigit m) = some m.val := by decide
  exact hall ⟨n, h⟩

theorem hexCode?_control {n : Nat} (h : n < 0x20) (t : Text) :
    hexCode? ('0' :: '0' :: hexDigit (n / 16) :: hexDigit (n % 16) :: t) = some (n, t) := by
  have hzero : hexValue? '0' = some 0 := by decide
  have hhigh := hexValue?_hexDigit (n := n / 16) (by omega)
  have hlow := hexValue?_hexDigit (n := n % 16) (by omega)
  simp only [hexCode?, hzero, hhigh, hlow, Option.bind_eq_bind, Option.bind_some, Option.pure_def,
    Option.some.injEq, Prod.mk.injEq, and_true]
  omega

/-! ## Escapes -/

theorem escape_cases (c : Char) :
    (∃ e, escape c = ['\\', e] ∧ e ≠ 'u' ∧ escapeOf? e = some c) ∨
      (c.toNat < 0x20 ∧
        escape c = ['\\', 'u', '0', '0', hexDigit (c.toNat / 16), hexDigit (c.toNat % 16)]) ∨
      (0x20 ≤ c.toNat ∧ c ≠ '"' ∧ c ≠ '\\' ∧ escape c = [c]) := by
  unfold escape
  split
  · exact .inl ⟨_, rfl, by decide, by decide⟩
  · exact .inl ⟨_, rfl, by decide, by decide⟩
  · exact .inl ⟨_, rfl, by decide, by decide⟩
  · exact .inl ⟨_, rfl, by decide, by decide⟩
  · exact .inl ⟨_, rfl, by decide, by decide⟩
  · exact .inl ⟨_, rfl, by decide, by decide⟩
  · exact .inl ⟨_, rfl, by decide, by decide⟩
  · next hquote hslash _ _ _ _ _ =>
      right
      by_cases hcontrol : c.toNat < 0x20
      · exact .inl ⟨hcontrol, if_pos hcontrol⟩
      · exact .inr ⟨by omega, hquote, hslash, if_neg hcontrol⟩

theorem readString_escape (c : Char) (t : Text) :
    readString (escape c ++ t) = (readString t).map fun (s, t) => (escape c ++ s, t) := by
  rcases escape_cases c with ⟨e, he, hu, hof⟩ | ⟨hcontrol, he⟩ |
    ⟨hplain, hquote, hslash, he⟩
  · rw [he]
    simp only [List.cons_append, List.nil_append]
    rw [readString]
    · simp [hof]
    · intro a b c' d t' hmatch
      exact absurd hmatch hu
  · have hcode := hexCode?_control hcontrol []
    rw [he]
    simp only [List.cons_append, List.nil_append]
    rw [readString]
    simp [hcode]
  · rw [he]
    simp only [List.cons_append, List.nil_append]
    rw [readString]
    · have hcontrol : ¬c.toNat < 0x20 := by omega
      simp [hslash, hcontrol]
    · exact fun h => hquote h
    · intro a b c' d t' h
      exact absurd h hslash
    · intro c' t' h
      exact absurd h hslash

theorem readString_written (s t : Text) :
    readString (s.flatMap escape ++ '"' :: t) = some (s.flatMap escape, t) := by
  induction s with
  | nil => rfl
  | cons c s ih =>
      rw [List.flatMap_cons, List.append_assoc, readString_escape, ih]
      rfl

theorem unescape?_escape (n : Nat) (c : Char) (t : Text) :
    unescape? (n + 1) (escape c ++ t) = (unescape? n t).map (c :: ·) := by
  rcases escape_cases c with ⟨e, he, hu, hof⟩ | ⟨hcontrol, he⟩ |
    ⟨hplain, hquote, hslash, he⟩
  · rw [he]
    simp only [List.cons_append, List.nil_append]
    rw [unescape?]
    · simp only [hof, Option.bind_eq_bind, Option.bind_some]
      cases unescape? n t <;> rfl
    · exact hu
  · have hcode := hexCode?_control hcontrol t
    have hhigh : isSurrogate true c.toNat = false := by
      simp only [isSurrogate, if_true, Bool.and_eq_false_iff, decide_eq_false_iff_not]
      omega
    have hlow : isSurrogate false c.toNat = false := by
      simp only [isSurrogate, Bool.false_eq_true, if_false, Bool.and_eq_false_iff,
        decide_eq_false_iff_not]
      omega
    rw [he]
    simp only [List.cons_append, List.nil_append]
    rw [unescape?]
    simp only [hcode, hhigh, hlow, Option.bind_eq_bind, Option.bind_some,
      Bool.false_eq_true, if_false, Char.ofNat_toNat]
    cases unescape? n t <;> rfl
  · rw [he]
    simp only [List.cons_append, List.nil_append]
    rw [unescape?]
    · cases unescape? n t <;> rfl
    · intro t' h
      exact absurd h hslash
    · intro c' t' h
      exact absurd h hslash

theorem unescape?_written {n : Nat} {s : Text} (h : s.length < n) :
    unescape? n (s.flatMap escape) = some s := by
  induction s generalizing n with
  | nil =>
      obtain ⟨m, rfl⟩ := Nat.exists_eq_succ_of_ne_zero (Nat.ne_of_gt h)
      rfl
  | cons c s ih =>
      obtain ⟨m, rfl⟩ := Nat.exists_eq_succ_of_ne_zero (Nat.ne_of_gt (Nat.zero_lt_of_lt h))
      have hs : s.length < m := by simpa using h
      rw [List.flatMap_cons, unescape?_escape, ih hs]
      rfl

theorem length_le_length_written (s : Text) : s.length ≤ (s.flatMap escape).length := by
  induction s with
  | nil => simp
  | cons c s ih =>
      have hc : 1 ≤ (escape c).length := by
        rcases escape_cases c with ⟨e, he, -⟩ | ⟨-, he⟩ | ⟨-, -, -, he⟩
        · simp [he]
        · simp [he]
        · simp [he]
      rw [List.flatMap_cons, List.length_append, List.length_cons]
      omega

/-- A written text stands for the text. -/
theorem decodeWritten_written (s : String) : decodeWritten (s.toList.flatMap escape) = .ok s := by
  have hlength := length_le_length_written s.toList
  unfold decodeWritten textOf?
  rw [unescape?_written (by omega)]
  simp

end Rewrap.Json
