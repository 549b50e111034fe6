import Mathlib.Data.List.DropRight
import Rewrap.Json.Printer
import Rewrap.Proofs.Except
import Rewrap.Proofs.Json.Strings

/-! # Printed values

A value of words, written strings, arrays and objects is read back from its text. -/

namespace Rewrap.Json

/-- Whether the value holds only words and written strings, in arrays and objects. -/
def IsWritten : Json → Prop
  | .null | .bool _ => True
  | .string written => ∃ s : Text, written = s.flatMap escape
  | .array items => AllItems items
  | .object fields => AllFields fields
  | .number _ | .malformed => False
where
  AllItems : List Json → Prop
    | [] => True
    | j :: js => j.IsWritten ∧ AllItems js
  AllFields : List (Text × Json) → Prop
    | [] => True
    | (key, j) :: fs => (∃ s : Text, key = s.flatMap escape) ∧ j.IsWritten ∧ AllFields fs

/-! ## Space -/

theorem dropSpace_newline (depth : Nat) (t : Text) :
    dropSpace (newline depth ++ t) = dropSpace t := by
  have hblanks : ∀ n, dropSpace (List.replicate n ' ' ++ t) = dropSpace t := by
    intro n
    induction n with
    | zero => rfl
    | succ n ih =>
        have hspace : isSpace ' ' = true := by decide
        have hdrop : dropSpace (' ' :: (List.replicate n ' ' ++ t)) =
            dropSpace (List.replicate n ' ' ++ t) := by
          simp [dropSpace, hspace]
        rw [List.replicate_succ, List.cons_append, hdrop, ih]
  have hbreak : isSpace '\n' = true := by decide
  rw [← hblanks (2 * depth)]
  simp [newline, dropSpace, hbreak]

theorem dropSpace_of_not_isSpace {c : Char} (h : isSpace c = false) (t : Text) :
    dropSpace (c :: t) = c :: t := by
  simp [dropSpace, h]

theorem dropSpace_dropSpace (t : Text) : dropSpace (dropSpace t) = dropSpace t :=
  List.dropWhile_idempotent isSpace t

theorem readValue_dropSpace (n : Nat) (t : Text) : readValue n (dropSpace t) = readValue n t := by
  cases n with
  | zero => rfl
  | succ n =>
      unfold readValue
      rw [dropSpace_dropSpace]

theorem readItems_dropSpace (n : Nat) (t : Text) : readItems n (dropSpace t) = readItems n t := by
  cases n with
  | zero => rfl
  | succ n =>
      unfold readItems
      rw [readValue_dropSpace]

theorem readFields_dropSpace (n : Nat) (t : Text) :
    readFields n (dropSpace t) = readFields n t := by
  cases n with
  | zero => rfl
  | succ n =>
      unfold readFields
      rw [dropSpace_dropSpace]

theorem readValue_newline (n depth : Nat) (t : Text) :
    readValue n (newline depth ++ t) = readValue n t := by
  rw [← readValue_dropSpace, dropSpace_newline, readValue_dropSpace]

/-! ## Values -/

theorem readValue_null (n : Nat) (t : Text) :
    readValue (n + 1) ("null".toList ++ t) = (.null, some t) := by
  rfl

theorem readValue_bool (n : Nat) (b : Bool) (t : Text) :
    readValue (n + 1) ((if b then "true" else "false").toList ++ t) = (.bool b, some t) := by
  cases b <;> rfl

theorem readValue_string (n : Nat) (s t : Text) :
    readValue (n + 1) (quoted (s.flatMap escape) ++ t) = (.string (s.flatMap escape), some t) := by
  have hdrop : dropSpace ('"' :: (s.flatMap escape ++ '"' :: t)) =
      '"' :: (s.flatMap escape ++ '"' :: t) :=
    dropSpace_of_not_isSpace (by decide) _
  have hquoted : quoted (s.flatMap escape) ++ t = '"' :: (s.flatMap escape ++ '"' :: t) := by
    simp [quoted]
  rw [hquoted]
  unfold readValue
  rw [hdrop]
  simp only [readString_written, Option.map_some, orMalformed]

/-- The first character of a value is no space and ends nothing. -/
theorem print_head {j : Json} (h : j.IsWritten) (depth : Nat) :
    ∃ c cs, j.print depth = c :: cs ∧ isSpace c = false ∧ c ≠ ']' ∧ c ≠ '\x7d' := by
  cases j with
  | null => exact ⟨'n', "ull".toList, rfl, by decide, by decide, by decide⟩
  | bool b =>
      cases b
      · exact ⟨'f', "alse".toList, rfl, by decide, by decide, by decide⟩
      · exact ⟨'t', "rue".toList, rfl, by decide, by decide, by decide⟩
  | number written => exact h.elim
  | string written => exact ⟨'"', _, rfl, by decide, by decide, by decide⟩
  | array items =>
      cases items with
      | nil => exact ⟨'[', _, rfl, by decide, by decide, by decide⟩
      | cons j js => exact ⟨'[', _, rfl, by decide, by decide, by decide⟩
  | object fields =>
      cases fields with
      | nil => exact ⟨'\x7b', _, rfl, by decide, by decide, by decide⟩
      | cons f fs => exact ⟨'\x7b', _, rfl, by decide, by decide, by decide⟩
  | malformed => exact h.elim

/-- What the reader makes of printed text, with bounds on the nesting that the text's length
gives. -/
structure Reads (n : Nat) : Prop where
  value : ∀ (j : Json) (depth : Nat) (t : Text), j.IsWritten →
    2 * (j.print depth).length ≤ n → readValue n (j.print depth ++ t) = (j, some t)
  items : ∀ (j : Json) (js : List Json) (depth : Nat) (t : Text), j.IsWritten →
    IsWritten.AllItems js →
    2 * (j.print (depth + 1) ++ print.printItems depth js).length ≤ n →
    readItems n (newline (depth + 1) ++ j.print (depth + 1) ++ print.printItems depth js ++ t) =
      (j :: js, some t)
  fields : ∀ (key : Text) (j : Json) (fs : List (Text × Json)) (depth : Nat) (t : Text),
    j.IsWritten → IsWritten.AllFields fs →
    2 * (j.print (depth + 1) ++ print.printFields depth fs).length ≤ n →
    readFields n (newline (depth + 1) ++ quoted (key.flatMap escape) ++ [':', ' '] ++
        j.print (depth + 1)
      ++ print.printFields depth fs ++ t) = ((key.flatMap escape, j) :: fs, some t)

theorem reads_zero : Reads 0 where
  value := by
    intro j depth t hj hn
    obtain ⟨c, cs, hprint, -⟩ := print_head hj depth
    simp [hprint] at hn
  items := by
    intro j js depth t hj hjs hn
    obtain ⟨c, cs, hprint, -⟩ := print_head hj (depth + 1)
    simp [hprint] at hn
  fields := by
    intro key j fs depth t hj hfs hn
    obtain ⟨c, cs, hprint, -⟩ := print_head hj (depth + 1)
    simp [hprint] at hn

theorem readItems_print {n : Nat} (h : Reads n) (j : Json) (js : List Json) (depth : Nat) (t : Text)
    (hj : j.IsWritten) (hjs : IsWritten.AllItems js)
    (hn : 2 * (j.print (depth + 1) ++ print.printItems depth js).length ≤ n + 1) :
    readItems (n + 1) (newline (depth + 1) ++ j.print (depth + 1) ++
        print.printItems depth js ++ t) =
      (j :: js, some t) := by
  have hlength : 1 ≤ (print.printItems depth js).length := by
    cases js with
    | nil => simp [print.printItems, newline]
    | cons j js => simp [print.printItems]
  rw [List.length_append] at hn
  have hvalue := h.value j (depth + 1) (print.printItems depth js ++ t) hj (by omega)
  unfold readItems
  rw [List.append_assoc, List.append_assoc, readValue_newline, hvalue]
  cases js with
  | nil =>
      have hend : dropSpace (print.printItems depth [] ++ t) = ']' :: t := by
        simp only [print.printItems, List.append_assoc, dropSpace_newline]
        exact dropSpace_of_not_isSpace (by decide) t
      simp only [hend]
  | cons j' js =>
      have hcomma : dropSpace (print.printItems depth (j' :: js) ++ t) =
          ',' :: (newline (depth + 1) ++ j'.print (depth + 1) ++
            print.printItems depth js ++ t) := by
        simp only [print.printItems, List.cons_append]
        rw [dropSpace_of_not_isSpace (by decide)]
      have hrest := h.items j' js depth t hjs.1 hjs.2 (by
        simp only [print.printItems, List.cons_append, List.length_cons, List.length_append]
          at hn ⊢
        omega)
      simp only [hcomma, hrest]

theorem readFields_print {n : Nat} (h : Reads n) (key : Text) (j : Json) (fs : List (Text × Json))
    (depth : Nat) (t : Text) (hj : j.IsWritten) (hfs : IsWritten.AllFields fs)
    (hn : 2 * (j.print (depth + 1) ++ print.printFields depth fs).length ≤ n + 1) :
    readFields (n + 1) (newline (depth + 1) ++ quoted (key.flatMap escape) ++ [':', ' ']
      ++ j.print (depth + 1) ++ print.printFields depth fs ++ t) =
        ((key.flatMap escape, j) :: fs, some t) := by
  have hlength : 1 ≤ (print.printFields depth fs).length := by
    cases fs with
    | nil => simp [print.printFields, newline]
    | cons f fs => simp [print.printFields]
  rw [List.length_append] at hn
  have hvalue := h.value j (depth + 1) (print.printFields depth fs ++ t) hj (by omega)
  have hkey : dropSpace (newline (depth + 1) ++ quoted (key.flatMap escape) ++ [':', ' ']
      ++ j.print (depth + 1) ++ print.printFields depth fs ++ t) =
        '"' :: (key.flatMap escape ++ '"' :: (':' :: ' ' :: (j.print (depth + 1)
          ++ (print.printFields depth fs ++ t)))) := by
    simp only [List.append_assoc, dropSpace_newline, quoted, List.cons_append, List.nil_append]
    exact dropSpace_of_not_isSpace (by decide) _
  have hcolon : ∀ u, dropSpace (':' :: u) = ':' :: u := dropSpace_of_not_isSpace (by decide)
  have hblank : readValue n (' ' :: (j.print (depth + 1) ++ (print.printFields depth fs ++ t))) =
      (j, some (print.printFields depth fs ++ t)) := by
    rw [← hvalue, ← readValue_dropSpace]
    have hdrop : ∀ u, dropSpace (' ' :: u) = dropSpace u := fun u => by
      simp [dropSpace, show isSpace ' ' = true by decide]
    rw [hdrop, readValue_dropSpace]
  unfold readFields
  simp only [hkey, readString_written, hcolon, hblank]
  cases fs with
  | nil =>
      have hend : dropSpace (print.printFields depth [] ++ t) = '\x7d' :: t := by
        simp only [print.printFields, List.append_assoc, dropSpace_newline]
        exact dropSpace_of_not_isSpace (by decide) t
      simp only [hend]
  | cons f fs =>
      obtain ⟨key', j'⟩ := f
      obtain ⟨⟨s, rfl⟩, hj', hfs⟩ := hfs
      have hcomma : dropSpace (print.printFields depth ((s.flatMap escape, j') :: fs) ++ t) =
          ',' :: (newline (depth + 1) ++ quoted (s.flatMap escape) ++ [':', ' '] ++
              j'.print (depth + 1)
            ++ print.printFields depth fs ++ t) := by
        simp only [print.printFields, List.cons_append]
        rw [dropSpace_of_not_isSpace (by decide)]
      have hrest := h.fields s j' fs depth t hj' hfs (by
        simp only [print.printFields, List.cons_append, List.length_cons, List.length_append]
          at hn ⊢
        omega)
      simp only [hcomma, hrest]

theorem readValue_array {n : Nat} (h : Reads n) (items : List Json) (depth : Nat) (t : Text)
    (hitems : IsWritten.AllItems items) (hn : 2 * (print depth (.array items)).length ≤ n + 1) :
    readValue (n + 1) (print depth (.array items) ++ t) = (.array items, some t) := by
  have hopen : ∀ u, dropSpace ('[' :: u) = '[' :: u := dropSpace_of_not_isSpace (by decide)
  cases items with
  | nil =>
      have hclose : dropSpace (']' :: t) = ']' :: t := dropSpace_of_not_isSpace (by decide) t
      have hprint : print depth (.array []) ++ t = '[' :: ']' :: t := rfl
      rw [hprint]
      unfold readValue
      simp only [hopen, hclose]
  | cons j js =>
      obtain ⟨hj, hjs⟩ := hitems
      obtain ⟨c, cs, hhead, hspace, hbracket, -⟩ := print_head hj (depth + 1)
      have hread := h.items j js depth t hj hjs (by
        simp only [print, List.cons_append, List.length_cons, List.length_append] at hn ⊢
        omega)
      have hprint : print depth (.array (j :: js)) ++ t =
          '[' :: (newline (depth + 1) ++ j.print (depth + 1) ++
            print.printItems depth js ++ t) := by
        simp [print]
      have hdrop : dropSpace
          (newline (depth + 1) ++ j.print (depth + 1) ++ print.printItems depth js ++ t) =
          c :: (cs ++ print.printItems depth js ++ t) := by
        simp only [List.append_assoc, dropSpace_newline, hhead, List.cons_append]
        exact dropSpace_of_not_isSpace hspace _
      rw [← readItems_dropSpace, hdrop] at hread
      rw [hprint]
      unfold readValue
      simp only [hopen, hdrop]
      split
      · next u hu => exact absurd (List.cons.inj hu).1 hbracket
      · rw [hread]

theorem readValue_object {n : Nat} (h : Reads n) (fields : List (Text × Json)) (depth : Nat)
    (t : Text) (hfields : IsWritten.AllFields fields)
    (hn : 2 * (print depth (.object fields)).length ≤ n + 1) :
    readValue (n + 1) (print depth (.object fields) ++ t) = (.object fields, some t) := by
  have hopen : ∀ u, dropSpace ('\x7b' :: u) = '\x7b' :: u := dropSpace_of_not_isSpace (by decide)
  cases fields with
  | nil =>
      have hclose : dropSpace ('\x7d' :: t) = '\x7d' :: t := dropSpace_of_not_isSpace (by decide) t
      have hprint : print depth (.object []) ++ t = '\x7b' :: '\x7d' :: t := rfl
      rw [hprint]
      unfold readValue
      simp only [hopen, hclose]
  | cons f fs =>
      obtain ⟨key, j⟩ := f
      obtain ⟨⟨s, rfl⟩, hj, hfs⟩ := hfields
      have hread := h.fields s j fs depth t hj hfs (by
        simp only [print, List.cons_append, List.length_cons, List.length_append] at hn ⊢
        omega)
      have hprint : print depth (.object ((s.flatMap escape, j) :: fs)) ++ t =
          '\x7b' :: (newline (depth + 1) ++ quoted (s.flatMap escape) ++ [':', ' '] ++
              j.print (depth + 1)
            ++ print.printFields depth fs ++ t) := by
        simp [print]
      have hdrop : ∃ u, dropSpace (newline (depth + 1) ++ quoted (s.flatMap escape) ++ [':', ' ']
          ++ j.print (depth + 1) ++ print.printFields depth fs ++ t) = '"' :: u := by
        simp only [List.append_assoc, dropSpace_newline, quoted, List.cons_append]
        exact ⟨_, dropSpace_of_not_isSpace (by decide) _⟩
      obtain ⟨u, hu⟩ := hdrop
      rw [← readFields_dropSpace, hu] at hread
      rw [hprint]
      unfold readValue
      simp only [hopen, hu]
      split
      · next v hv => exact absurd (List.cons.inj hv).1 (by decide)
      · rw [hread]

/-- All nesting bounds read what is printed within them. -/
theorem reads (n : Nat) : Reads n := by
  induction n with
  | zero => exact reads_zero
  | succ n ih =>
      refine ⟨fun j depth t hj hn => ?_, fun j js depth t => readItems_print ih j js depth t,
        fun key j fs depth t => readFields_print ih key j fs depth t⟩
      cases j with
      | null => exact readValue_null n t
      | bool b => exact readValue_bool n b t
      | number written => exact hj.elim
      | string written =>
          obtain ⟨s, rfl⟩ := hj
          exact readValue_string n s t
      | array items => exact readValue_array ih items depth t hj hn
      | object fields => exact readValue_object ih fields depth t hj hn
      | malformed => exact hj.elim

/-! ## Texts -/

/-- A written value is read back from its text. -/
theorem read_text {j : Json} (h : j.IsWritten) : read j.text = (j, true) := by
  have hread := (reads (2 * j.text.length + 2)).value j 0 [] h (by simp [text])
  rw [List.append_nil] at hread
  unfold read
  rw [show j.text = j.print 0 from rfl] at hread ⊢
  rw [hread]
  rfl

theorem decodeText_text {α : Type} (d : Decoder α) {j : Json} (h : j.IsWritten) :
    decodeText d j.text = d j := by
  unfold decodeText
  rw [read_text h]
  cases hd : d j <;> simp only [hd] <;> rfl

/-- What is decoded from a text is decoded from a value. -/
theorem exists_of_decodeText {α : Type} {d : Decoder α} {t : Text} {a : α}
    (h : decodeText d t = .ok a) : ∃ j, d j = .ok a := by
  unfold decodeText at h
  generalize read t = r at h
  obtain ⟨j, ended⟩ := r
  obtain ⟨a', hd, h⟩ := Except.bind_eq_ok.mp h
  split at h
  · cases h
    exact ⟨j, hd⟩
  · cases h

end Rewrap.Json
