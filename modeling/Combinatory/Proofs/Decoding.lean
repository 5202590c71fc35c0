/-
What a file is decoded to, by comparing what is read from it with what is
expected.  The comparison can be carried out, where values as such cannot be
compared: it knows truth values, whole numbers, texts and tables of them.
-/
import Combinatory.Settings.Load
import Combinatory.Toml.Document

namespace Combinatory.Toml

mutual

/-- Whether two values are the same, and of the kinds that are compared. -/
def Datum.same : Datum → Datum → Bool
  | .bool b, .bool b' => b = b'
  | .int n, .int n' => n = n'
  | .text s, .text s' => s = s'
  | .table entries, .table entries' => sameEntries entries entries'
  | _, _ => false

def sameEntries : (entries entries' : List (String × Datum)) → Bool
  | [], [] => true
  | (key, d) :: entries, (key', d') :: entries' =>
    key = key' && d.same d' && sameEntries entries entries'
  | _, _ => false

end

mutual

theorem Datum.eq_of_same {d d' : Datum} (h : d.same d' = true) : d = d' := by
  cases d <;> cases d' <;> simp_all [Datum.same]
  exact eq_of_sameEntries h

theorem eq_of_sameEntries {entries entries' : List (String × Datum)}
    (h : sameEntries entries entries' = true) : entries = entries' := by
  cases entries with
  | nil =>
      cases entries' with
      | nil => rfl
      | cons => cases h
  | cons entry entries =>
      cases entries' with
      | nil => cases h
      | cons entry' entries' =>
          simp only [sameEntries, Bool.and_eq_true, decide_eq_true_eq] at h
          obtain ⟨⟨hkey, hvalue⟩, hrest⟩ := h
          rw [Prod.ext hkey (Datum.eq_of_same hvalue), eq_of_sameEntries hrest]

end

variable {text : String} {entries : List (String × Datum)}

theorem parse_of_sameEntries
    (h : (parse text).any (sameEntries entries) = true) :
    parse text = some entries := by
  obtain ⟨read, hread, hsame⟩ := (Option.any_eq_true _ _).1 h
  rw [hread, eq_of_sameEntries hsame]

theorem parse_ofList (cs : List Char) :
    parse (String.ofList cs) = document (unifyBreaks cs) := by
  rw [parse, String.toList_ofList]

theorem decode_toUTF8 (h : parse text = some entries) :
    decode text.toUTF8 = .ok entries := by
  have htext : String.fromUTF8? text.toUTF8 = some text :=
    dif_pos text.isValidUTF8
  simp only [decode, htext, h]

end Combinatory.Toml

namespace Combinatory

/-- The host on which every path leads to a file with this text, read by the
rules of TOML 1.0. -/
def Host.ofText (text : String) : Host where
  look _ := .file text.toUTF8
  decode := Toml.decode

end Combinatory
