/-
Reading and writing words.  A text is read if all its characters belong to the
alphabet, and then it is what the word is written as.  Any other text is refused
at its first foreign character, and what stands before that character can be
read.  Written words follow one another as the words do; so a text behind one
that can be read is read, or refused, as it is by itself, with its positions
moved on by the characters in front of it.
-/
import Combinatory.Proofs.NormalForm

namespace Combinatory

def alphabet : List Char := "`ski".toList

namespace Token

theorem char_mem_alphabet (t : Token) : t.char ∈ alphabet := by
  cases t with
  | apply => decide
  | atom a => cases a <;> decide

theorem mem_alphabet_iff {c : Char} :
    c ∈ alphabet ↔ ∃ t, ofChar? c = some t := by
  constructor
  · intro hc
    have hcases : c = '\x60' ∨ c = 's' ∨ c = 'k' ∨ c = 'i' := by
      simpa [alphabet] using hc
    rcases hcases with rfl | rfl | rfl | rfl
    · exact ⟨.apply, rfl⟩
    · exact ⟨.atom .s, rfl⟩
    · exact ⟨.atom .k, rfl⟩
    · exact ⟨.atom .i, rfl⟩
  · rintro ⟨t, ht⟩
    rw [ofChar?_eq_some_iff.1 ht]
    exact t.char_mem_alphabet

theorem ofChar?_eq_none_iff {c : Char} : ofChar? c = none ↔ c ∉ alphabet := by
  rw [mem_alphabet_iff, Option.eq_none_iff_forall_ne_some, not_exists]

end Token

namespace Word

/-- Characters are refused at the first one that is foreign. -/
theorem lexFrom_eq_error_iff {position : Nat} {cs : List Char} {e : LexError} :
    lexFrom position cs = .error e ↔
      ∃ i, e.position = position + i ∧ cs[i]? = some e.char ∧
      e.char ∉ alphabet ∧
        ∀ c ∈ cs.take i, c ∈ alphabet := by
  induction cs generalizing position with
  | nil => simp [lexFrom]
  | cons c cs ih =>
      cases hc : Token.ofChar? c with
      | none =>
          have hforeign := Token.ofChar?_eq_none_iff.1 hc
          simp only [lexFrom, hc]
          constructor
          · rintro ⟨⟩
            exact ⟨0, rfl, rfl, hforeign, by simp⟩
          · rintro ⟨_ | i, hposition, hchar, _, hbefore⟩
            · obtain ⟨_, _⟩ := e
              cases hposition
              cases hchar
              rfl
            · exact absurd (hbefore c (by simp)) hforeign
      | some t =>
          have hknown := Token.mem_alphabet_iff.2 ⟨t, hc⟩
          have hrest : lexFrom position (c :: cs) = .error e ↔
              lexFrom (position + 1) cs = .error e := by
            simp only [lexFrom, hc]
            cases lexFrom (position + 1) cs <;> simp
          rw [hrest, ih]
          constructor
          · rintro ⟨i, hposition, hchar, hforeign, hbefore⟩
            refine ⟨i + 1, by omega, hchar, hforeign, ?_⟩
            simpa [hknown] using hbefore
          · rintro ⟨_ | i, hposition, hchar, hforeign, hbefore⟩
            · cases hchar
              exact absurd hknown hforeign
            · refine ⟨i, by omega, hchar, hforeign, ?_⟩
              simpa [hknown] using hbefore

theorem lex_eq_error_iff {text : String} {e : LexError} :
    lex text = .error e ↔
      text.toList[e.position]? = some e.char ∧ e.char ∉ alphabet ∧
        ∀ c ∈ text.toList.take e.position, c ∈ alphabet := by
  rw [lex, lexFrom_eq_error_iff]
  simp only [Nat.zero_add]
  constructor
  · rintro ⟨i, hposition, hfirst⟩
    rw [hposition]
    exact hfirst
  · intro hfirst
    exact ⟨e.position, rfl, hfirst⟩

theorem lex_eq_ok_iff {text : String} {w : Word} :
    lex text = .ok w ↔ w.text = text := by
  constructor
  · exact text_of_lex
  · rintro rfl
    exact lex_text w

theorem mem_alphabet_of_mem_text {w : Word} {c : Char}
    (hc : c ∈ w.text.toList) :
    c ∈ alphabet := by
  rw [toList_text] at hc
  obtain ⟨t, _, rfl⟩ := List.mem_map.1 hc
  exact t.char_mem_alphabet

theorem exists_lex_eq_ok_iff {text : String} :
    (∃ w, lex text = .ok w) ↔ ∀ c ∈ text.toList, c ∈ alphabet := by
  constructor
  · rintro ⟨w, hlex⟩ c hc
    rw [← text_of_lex hlex] at hc
    exact mem_alphabet_of_mem_text hc
  · intro hknown
    cases hlex : lex text with
    | ok w => exact ⟨w, rfl⟩
    | error e =>
        obtain ⟨hchar, hforeign, _⟩ := lex_eq_error_iff.1 hlex
        exact absurd (hknown e.char (List.mem_of_getElem? hchar)) hforeign

theorem lex_append {s t : String} {v w : Word} (hs : lex s = .ok v)
    (ht : lex t = .ok w) :
    lex (s ++ t) = .ok (v ++ w) := by
  rw [lex_eq_ok_iff] at hs ht ⊢
  rw [text_append, hs, ht]

/-- A text that is refused is refused at the same character behind a text that
can be read. -/
theorem lex_append_error {s t : String} {v : Word} {e : LexError}
    (hs : lex s = .ok v) (ht : lex t = .error e) :
    lex (s ++ t) = .error ⟨s.length + e.position, e.char⟩ := by
  have hknown := exists_lex_eq_ok_iff.1 ⟨v, hs⟩
  obtain ⟨hchar, hforeign, hbefore⟩ := lex_eq_error_iff.1 ht
  rw [lex_eq_error_iff, String.toList_append, ← String.length_toList]
  refine ⟨?_, hforeign, ?_⟩
  · rw [List.getElem?_append_right (Nat.le_add_right _ _),
      Nat.add_sub_cancel_left]
    exact hchar
  · intro c hc
    rw [List.take_length_add_append, List.mem_append] at hc
    rcases hc with hc | hc
    · exact hknown c hc
    · exact hbefore c hc

/-- Reading and writing are inverse to each other, and the error that is
reported is the first.  A text can be read exactly if its characters belong to
the alphabet; the word is then written as the text and has as many tokens as the
text has characters, and every word is read from what it is written as.
Otherwise the error gives the least position of a foreign character and the
character there, and the text up to it can be read.  Two words after one another
are written as their texts after one another and read from them; behind a text
that can be read, one that cannot fails at the same character, at its position
counted from the end of the first. -/
theorem lexing_inverts_writing :
    (∀ text, (∃ w, lex text = .ok w) ↔ ∀ c ∈ text.toList, c ∈ alphabet) ∧
    (∀ text w, lex text = .ok w → w.text = text ∧ w.length = text.length) ∧
    (∀ w : Word, lex w.text = .ok w) ∧
    (∀ text e, lex text = .error e ↔
      text.toList[e.position]? = some e.char ∧ e.char ∉ alphabet ∧
        ∀ c ∈ text.toList.take e.position, c ∈ alphabet) ∧
    (∀ text e, lex text = .error e →
      ∃ v, lex (String.ofList (text.toList.take e.position)) = .ok v) ∧
    (∀ v w : Word, text (v ++ w) = v.text ++ w.text) ∧
    (∀ s t v w, lex s = .ok v → lex t = .ok w → lex (s ++ t) = .ok (v ++ w)) ∧
    ∀ s t v e, lex s = .ok v → lex t = .error e →
      lex (s ++ t) = .error ⟨s.length + e.position, e.char⟩ := by
  refine ⟨fun _ => exists_lex_eq_ok_iff, ?_, lex_text,
    fun _ _ => lex_eq_error_iff, ?_, text_append, fun _ _ _ _ => lex_append,
    fun _ _ _ _ => lex_append_error⟩
  · intro text w hlex
    have htext := text_of_lex hlex
    exact ⟨htext, by rw [← htext, length_text]⟩
  · intro text e hlex
    rw [exists_lex_eq_ok_iff, String.toList_ofList]
    exact (lex_eq_error_iff.1 hlex).2.2

/-- The foreign character takes more than one byte and is the second of its
text, and so the fourth behind two that can be read. -/
theorem lexing_inverts_writing_sk :
    ∃ v e, lex "`s" = .ok v ∧ v.text = "`s" ∧ v.length = 2 ∧
      lex "k\u4e2d\u4e2di" = .error e ∧ e.position = 1 ∧ e.char = '\u4e2d' ∧
      (∃ u, lex
        (String.ofList ("k\u4e2d\u4e2di".toList.take e.position)) = .ok u) ∧
      lex "`sk\u4e2d\u4e2di" = .error ⟨3, '\u4e2d'⟩ := by
  obtain ⟨_, hread, _, _, hbefore, _, _, hbehind⟩ := lexing_inverts_writing
  have hv : lex "`s" = .ok [.apply, .atom .s] := rfl
  have he : lex "k\u4e2d\u4e2di" = .error ⟨1, '\u4e2d'⟩ := rfl
  obtain ⟨htext, hlength⟩ := hread _ _ hv
  exact ⟨_, _, hv, htext, hlength, he, rfl, rfl, hbefore _ _ he,
    hbehind _ _ _ _ hv he⟩

end Word

end Combinatory
