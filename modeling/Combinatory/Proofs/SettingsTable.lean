/-
Settings from tables.  An entry is usable if its key is the name of a setting
and its value fits the setting.  A table of usable entries is taken over entry
by entry, each entry setting what its key says and nothing else, so with
distinct keys the order of the entries is of no account.  Any other table is
refused at its first entry that is not usable.  The refusal names the key,
unless the value is too long to be shown.
-/
import Combinatory.Evaluate
import Combinatory.Proofs.Decoding

namespace Combinatory

open Toml (Datum Hindrance)

/-- The entries that a table of settings may have. -/
inductive Usable : String × Datum → Prop where
  | mode {name : String} : name = "direct" ∨ name = "requeue" →
      Usable ("mode", .text name)
  | limit {n : Int} : 0 ≤ n → Usable ("limit", .int n)
  | trace (b : Bool) : Usable ("trace", .bool b)
  | progress (b : Bool) : Usable ("progress", .bool b)
  | recursionLimit {n : Int} : 0 ≤ n → Usable ("recursionlimit", .int n)

theorem Mode.name_of_ofName? {name : String} {m : Mode}
    (h : Mode.ofName? name = some m) :
    m.name = name := by
  have hfound := List.find?_some h
  exact of_decide_eq_true hfound

theorem Mode.name_injective {m m' : Mode} (h : m.name = m'.name) : m = m' := by
  have hname := Mode.ofName?_name m
  rw [h, Mode.ofName?_name] at hname
  exact (Option.some.inj hname).symm

namespace Setting

variable {d : Datum} {setting : Setting}

theorem name_of_ofName? {key : String} (h : ofName? key = some setting) :
    setting.name = key := by
  have hfound := List.find?_some h
  exact of_decide_eq_true hfound

theorem ofName?_name (setting : Setting) :
    ofName? setting.name = some setting := by
  cases setting <;> rfl

theorem ofName?_eq_none_iff {key : String} :
    ofName? key = none ↔ ∀ setting : Setting, setting.name ≠ key := by
  constructor
  · rintro hnone setting rfl
    rw [ofName?_name] at hnone
    cases hnone
  · intro hnone
    cases hkey : ofName? key with
    | none => rfl
    | some setting => exact absurd (name_of_ofName? hkey) (hnone setting)

theorem name_injective {setting' : Setting} (h : setting.name = setting'.name) :
    setting = setting' := by
  have hname := ofName?_name setting
  rw [h, ofName?_name] at hname
  exact (Option.some.inj hname).symm

theorem isMode_eq_true_iff :
    isMode d = true ↔ ∃ m : Mode, d = .text m.name := by
  constructor
  · intro h
    cases d with
    | text name =>
        obtain ⟨m, hm⟩ := Option.isSome_iff_exists.1 h
        exact ⟨m, by rw [Mode.name_of_ofName? hm]⟩
    | _ => cases h
  · rintro ⟨m, rfl⟩
    rw [isMode, Mode.ofName?_name]
    rfl

theorem isCount_eq_true_iff : isCount d = true ↔ ∃ n : Nat, d = .int n := by
  constructor
  · intro h
    cases d with
    | int n =>
        have hn : 0 ≤ n := of_decide_eq_true h
        exact ⟨n.toNat, by rw [Int.toNat_of_nonneg hn]⟩
    | _ => cases h
  · rintro ⟨n, rfl⟩
    exact decide_eq_true (Int.natCast_nonneg n)

theorem isSwitch_eq_true_iff : isSwitch d = true ↔ ∃ b : Bool, d = .bool b := by
  constructor
  · intro h
    cases d with
    | bool b => exact ⟨b, rfl⟩
    | _ => cases h
  · rintro ⟨b, rfl⟩
    rfl

theorem usable_of_accepts {entry : String × Datum}
    (hname : setting.name = entry.1)
    (h : setting.accepts entry.2 = true) : Usable entry := by
  obtain ⟨key, d⟩ := entry
  obtain rfl : setting.name = key := hname
  cases setting with
  | mode =>
      obtain ⟨m, rfl⟩ := isMode_eq_true_iff.1 h
      exact .mode (by cases m <;> simp [Mode.name])
  | limit =>
      obtain ⟨n, rfl⟩ := isCount_eq_true_iff.1 h
      exact .limit (Int.natCast_nonneg n)
  | trace =>
      obtain ⟨b, rfl⟩ := isSwitch_eq_true_iff.1 h
      exact .trace b
  | progress =>
      obtain ⟨b, rfl⟩ := isSwitch_eq_true_iff.1 h
      exact .progress b
  | recursionLimit =>
      obtain ⟨n, rfl⟩ := isCount_eq_true_iff.1 h
      exact .recursionLimit (Int.natCast_nonneg n)

end Setting

/-- An entry is usable if its key names a setting that accepts its value. -/
theorem usable_iff {entry : String × Datum} :
    Usable entry ↔
      ∃ setting, Setting.ofName? entry.1 = some setting ∧
        setting.accepts entry.2 = true := by
  constructor
  · intro h
    cases h with
    | mode hname => exact ⟨.mode, rfl, by rcases hname with rfl | rfl <;> rfl⟩
    | limit hn => exact ⟨.limit, rfl, decide_eq_true hn⟩
    | trace b => exact ⟨.trace, rfl, rfl⟩
    | progress b => exact ⟨.progress, rfl, rfl⟩
    | recursionLimit hn => exact ⟨.recursionLimit, rfl, decide_eq_true hn⟩
  · rintro ⟨setting, hkey, haccepts⟩
    exact Setting.usable_of_accepts (Setting.name_of_ofName? hkey) haccepts

theorem not_usable_of_not_accepts (setting : Setting) {d : Datum}
    (h : setting.accepts d = false) :
    ¬ Usable (setting.name, d) := by
  intro husable
  obtain ⟨setting', hkey, haccepts⟩ := usable_iff.1 husable
  rw [Setting.ofName?_name, Option.some.injEq] at hkey
  rw [← hkey, h] at haccepts
  cases haccepts

namespace Settings

variable {s s' : Settings} {entries table : List (String × Datum)}
  {host : Host} {named : Option String}

/-- What a table would say to set what is set.  Zero stands for no limit. -/
def value (s : Settings) : Setting → Datum
  | .mode => .text s.mode.name
  | .limit => .int (s.limit.getD 0 : Nat)
  | .trace => .bool s.trace
  | .progress => .bool s.progress
  | .recursionLimit => .int s.recursionLimit

/-- A value that fits a setting is what is set afterwards, and all else is as
before. -/
theorem value_assign {setting : Setting} {d : Datum}
    (h : setting.accepts d = true) (other : Setting) :
    (s.assign setting d).value other =
      if other = setting then d else s.value other := by
  cases setting with
  | mode =>
      obtain ⟨m, rfl⟩ := Setting.isMode_eq_true_iff.1 h
      cases other <;> simp [assign, value, Mode.ofName?_name]
  | limit =>
      obtain ⟨n, rfl⟩ := Setting.isCount_eq_true_iff.1 h
      cases other with
      | limit => by_cases hn : n = 0 <;> simp [assign, value, hn]
      | _ => rfl
  | trace =>
      obtain ⟨b, rfl⟩ := Setting.isSwitch_eq_true_iff.1 h
      cases other <;> simp [assign, value]
  | progress =>
      obtain ⟨b, rfl⟩ := Setting.isSwitch_eq_true_iff.1 h
      cases other <;> simp [assign, value]
  | recursionLimit =>
      obtain ⟨n, rfl⟩ := Setting.isCount_eq_true_iff.1 h
      cases other <;> simp [assign, value]

/-- No limit is given as zero. -/
theorem limit_assign_ne_zero {setting : Setting} {d : Datum}
    (h : setting.accepts d = true)
    (hs : s.limit ≠ some 0) : (s.assign setting d).limit ≠ some 0 := by
  cases setting with
  | limit =>
      obtain ⟨n, rfl⟩ := Setting.isCount_eq_true_iff.1 h
      cases n <;> simp [assign]
  | _ => cases d <;> exact hs

theorem limit_eq_none_iff (hs : s.limit ≠ some 0) :
    s.limit = none ↔ s.value .limit = .int 0 := by
  obtain ⟨mode, limit, trace, progress, recursionLimit⟩ := s
  cases limit <;> simp_all [value]

/-- Settings that would be set by the same values are the same. -/
theorem eq_of_value_eq (hs : s.limit ≠ some 0) (hs' : s'.limit ≠ some 0)
    (h : ∀ setting, s.value setting = s'.value setting) : s = s' := by
  obtain ⟨mode, limit, trace, progress, recursionLimit⟩ := s
  obtain ⟨mode', limit', trace', progress', recursionLimit'⟩ := s'
  have hmode : mode = mode' := Mode.name_injective (Datum.text.inj (h .mode))
  have hlimit : limit.getD 0 = limit'.getD 0 :=
    Int.ofNat.inj (Datum.int.inj (h .limit))
  have htrace : trace = trace' := Datum.bool.inj (h .trace)
  have hprogress : progress = progress' := Datum.bool.inj (h .progress)
  have hrecursion : recursionLimit = recursionLimit' :=
    Int.ofNat.inj (Datum.int.inj (h .recursionLimit))
  have hsame : limit = limit' := by
    cases limit <;> cases limit' <;> simp_all
  rw [hmode, hsame, htrace, hprogress, hrecursion]

/-- The complaint about an entry that is not usable. -/
def refusal (entry : String × Datum) : TableError :=
  match Setting.ofName? entry.1 with
  | none => .unknown entry.1
  | some setting => .unfit setting entry.2

theorem put_of_not_usable {entry : String × Datum} (h : ¬ Usable entry)
    (s : Settings) :
    s.put entry = .error (refusal entry) := by
  unfold put refusal
  cases hkey : Setting.ofName? entry.1 with
  | none => rfl
  | some setting =>
      have hunfit : ¬ setting.accepts entry.2 = true :=
        fun haccepts => h (usable_iff.2 ⟨setting, hkey, haccepts⟩)
      exact if_neg hunfit

theorem exists_put_of_usable {entry : String × Datum} (h : Usable entry)
    (s : Settings) :
    ∃ setting, setting.name = entry.1 ∧ setting.accepts entry.2 = true ∧
      s.put entry = .ok (s.assign setting entry.2) := by
  obtain ⟨setting, hkey, haccepts⟩ := usable_iff.1 h
  refine ⟨setting, Setting.name_of_ofName? hkey, haccepts, ?_⟩
  unfold put
  rw [hkey]
  exact if_pos haccepts

/-- The entries are taken over one by one. -/
theorem foldlM_put_cons {entry : String × Datum} :
    (entry :: entries).foldlM put s = .ok s' ↔
      ∃ setting, setting.name = entry.1 ∧ setting.accepts entry.2 = true ∧
        entries.foldlM put (s.assign setting entry.2) = .ok s' := by
  rw [List.foldlM_cons]
  by_cases husable : Usable entry
  · obtain ⟨setting, hname, haccepts, hput⟩ := exists_put_of_usable husable s
    rw [hput]
    constructor
    · intro h
      exact ⟨setting, hname, haccepts, h⟩
    · rintro ⟨setting', hname', _, h⟩
      rw [Setting.name_injective (hname'.trans hname.symm)] at h
      exact h
  · rw [put_of_not_usable husable s]
    constructor
    · rintro ⟨⟩
    · rintro ⟨setting, hname, haccepts, _⟩
      exact absurd (Setting.usable_of_accepts hname haccepts) husable

theorem usable_of_foldlM_put (h : entries.foldlM put s = .ok s') :
    ∀ e ∈ entries, Usable e := by
  induction entries generalizing s with
  | nil => nofun
  | cons entry entries ih =>
      obtain ⟨setting, hname, haccepts, hrest⟩ := foldlM_put_cons.1 h
      intro e he
      rcases List.mem_cons.1 he with rfl | he
      · exact Setting.usable_of_accepts hname haccepts
      · exact ih hrest e he

/-- What is refused is the first entry that is not usable. -/
theorem exists_first_of_foldlM_put {e : TableError}
    (h : entries.foldlM put s = .error e) :
    ∃ before entry after, entries = before ++ entry :: after ∧
    (∀ u ∈ before, Usable u) ∧
      ¬ Usable entry ∧ e = refusal entry := by
  induction entries generalizing s with
  | nil => cases h
  | cons entry entries ih =>
      rw [List.foldlM_cons] at h
      by_cases husable : Usable entry
      · obtain ⟨setting, _, _, hput⟩ := exists_put_of_usable husable s
        rw [hput] at h
        obtain ⟨before, first, after, rfl, hbefore, hfirst, he⟩ := ih h
        exact ⟨entry :: before, first, after, rfl,
          List.forall_mem_cons.2 ⟨husable, hbefore⟩, hfirst, he⟩
      · rw [put_of_not_usable husable s] at h
        cases h
        exact ⟨[], entry, entries, rfl, nofun, husable, rfl⟩

theorem foldlM_put_of_first {before after : List (String × Datum)}
    {entry : String × Datum} (hbefore : ∀ u ∈ before, Usable u)
    (hentry : ¬ Usable entry) (s : Settings) :
    (before ++ entry :: after).foldlM put s = .error (refusal entry) := by
  induction before generalizing s with
  | nil =>
      rw [List.nil_append, List.foldlM_cons, put_of_not_usable hentry]
      rfl
  | cons u before ih =>
      obtain ⟨husable, hbefore⟩ := List.forall_mem_cons.1 hbefore
      obtain ⟨setting, _, _, hput⟩ := exists_put_of_usable husable s
      rw [List.cons_append, List.foldlM_cons, hput]
      exact ih hbefore _

/-- Each setting has the value that the table gives it, or the one that it
had. -/
theorem value_foldlM_put (hkeys : (entries.map Prod.fst).Nodup)
    (h : entries.foldlM put s = .ok s') (setting : Setting) :
    s'.value setting = (entries.lookup setting.name).getD
      (s.value setting) := by
  induction entries generalizing s with
  | nil =>
      cases h
      rfl
  | cons entry entries ih =>
      obtain ⟨key, d⟩ := entry
      obtain ⟨assigned, rfl, haccepts, hrest⟩ := foldlM_put_cons.1 h
      obtain ⟨hfresh, hkeys⟩ := List.nodup_cons.1 hkeys
      rw [ih hkeys hrest, value_assign haccepts, List.lookup_cons]
      by_cases hsame : setting = assigned
      · have hnone : entries.lookup assigned.name = none := by
          rw [List.lookup_eq_none_iff]
          intro e he
          rw [bne_iff_ne]
          rintro heq
          exact hfresh (List.mem_map.2 ⟨e, he, heq.symm⟩)
        simp [hsame, hnone]
      · have hname : (setting.name == assigned.name) = false :=
          beq_false_of_ne fun heq => hsame (Setting.name_injective heq)
        simp [hsame, hname]

theorem limit_foldlM_put_ne_zero (h : entries.foldlM put s = .ok s')
    (hs : s.limit ≠ some 0) :
    s'.limit ≠ some 0 := by
  induction entries generalizing s with
  | nil =>
      cases h
      exact hs
  | cons entry entries ih =>
      obtain ⟨setting, _, haccepts, hrest⟩ := foldlM_put_cons.1 h
      exact ih hrest (limit_assign_ne_zero haccepts hs)

/-- In a table with distinct keys every entry is found under its key. -/
theorem lookup_eq_some_iff_mem (hkeys : (entries.map Prod.fst).Nodup)
    {key : String} {d : Datum} :
    entries.lookup key = some d ↔ (key, d) ∈ entries := by
  rw [List.lookup_eq_some_iff]
  constructor
  · rintro ⟨before, after, rfl, _⟩
    simp
  · intro hmem
    obtain ⟨before, after, rfl⟩ := List.append_of_mem hmem
    refine ⟨before, after, rfl, ?_⟩
    intro e he
    rw [List.map_append, List.map_cons, List.nodup_append] at hkeys
    have hne := hkeys.2.2 e.1 (List.mem_map_of_mem he) key List.mem_cons_self
    exact bne_iff_ne.2 hne.symm

theorem ofTable_perm (hperm : entries.Perm table)
    (hkeys : (table.map Prod.fst).Nodup)
    (h : ofTable table = .ok s) : ofTable entries = .ok s := by
  have hkeys' : (entries.map Prod.fst).Nodup :=
    (hperm.map Prod.fst).nodup_iff.2 hkeys
  cases hentries : ofTable entries with
  | error e =>
      obtain ⟨before, entry, after, rfl, _, hentry, _⟩ :=
        exists_first_of_foldlM_put hentries
      have hmem : entry ∈ table := hperm.mem_iff.1 (by simp)
      exact absurd (usable_of_foldlM_put h entry hmem) hentry
  | ok s' =>
      have hsame : s' = s := by
        apply eq_of_value_eq (limit_foldlM_put_ne_zero hentries nofun)
          (limit_foldlM_put_ne_zero h nofun)
        intro setting
        have hlookup : entries.lookup setting.name =
            table.lookup setting.name := by
          apply Option.ext
          intro d
          rw [lookup_eq_some_iff_mem hkeys', lookup_eq_some_iff_mem hkeys,
            hperm.mem_iff]
        rw [value_foldlM_put hkeys' hentries, value_foldlM_put hkeys h, hlookup]
      rw [hsame]

/-- At the path stands a file from which the decoder reads a table of settings
with these entries, in the order of the file and each key once. -/
structure TableAt (host : Host) (path : String)
    (table : List (String × Datum)) : Prop where
  read : ∃ content entries, host.look path = .file content ∧
    host.decode content = .ok entries ∧
    entries.lookup "stax" = some (.table table)
  nodup : (table.map Prod.fst).Nodup

theorem tableAt_ofText {text path : String}
    (htext : Toml.parse text = some [("stax", .table table)])
    (hkeys : (table.map Prod.fst).Nodup) :
    TableAt (.ofText text) path table where
  read := ⟨_, _, rfl, Toml.decode_toUTF8 htext, rfl⟩
  nodup := hkeys

theorem load_of_tableAt (htable : TableAt host (path named host.chosen) table) :
    load host named = (ofTable table).mapError
      (.ofTable host.room (path named host.chosen)) := by
  obtain ⟨content, entries, hfile, hdecode, hentry⟩ := htable.read
  simp only [load, hfile, ofContent, hdecode, tableName, hentry]

theorem load_eq_ok_iff (htable : TableAt host (path named host.chosen) table) :
    load host named = .ok s ↔ ofTable table = .ok s := by
  rw [load_of_tableAt htable]
  cases ofTable table with
  | ok loaded =>
      constructor
      · rintro ⟨⟩
        rfl
      · rintro ⟨⟩
        rfl
  | error e => exact ⟨nofun, nofun⟩

theorem exists_of_load_error {e : LoadError}
    (htable : TableAt host (path named host.chosen) table)
    (h : load host named = .error e) :
    ∃ before entry after, table = before ++ entry :: after ∧
      (∀ u ∈ before, Usable u) ∧ ¬ Usable entry ∧
      e = .ofTable host.room (path named host.chosen) (refusal entry) := by
  rw [load_of_tableAt htable] at h
  cases hresult : ofTable table with
  | ok s =>
      rw [hresult] at h
      cases h
  | error fault =>
      obtain ⟨before, entry, after, hsplit, hbefore, hentry, rfl⟩ :=
        exists_first_of_foldlM_put hresult
      rw [hresult] at h
      cases h
      exact ⟨before, entry, after, hsplit, hbefore, hentry, rfl⟩

/-- Loaded settings are the standard ones or come from a table. -/
theorem cases_of_load (h : load host named = .ok s) :
    s = {} ∨ ∃ table, ofTable table = .ok s := by
  simp only [load] at h
  split at h
  · split at h
    · cases h
    · cases h
      exact Or.inl rfl
  · cases h
  · cases h
  · unfold ofContent at h
    split at h
    · cases h
    · split at h
      · cases h
        exact Or.inl rfl
      · next table _ =>
        cases htable : ofTable table with
        | error e =>
            rw [htable] at h
            cases h
        | ok loaded =>
            rw [htable] at h
            cases h
            exact Or.inr ⟨table, htable⟩
      · cases h

/-- Whatever is loaded gives no limit as zero. -/
theorem limit_ne_zero_of_load (h : load host named = .ok s) :
    s.limit ≠ some 0 := by
  rcases cases_of_load h with rfl | ⟨table, htable⟩
  · nofun
  · exact limit_foldlM_put_ne_zero htable nofun

theorem one_le_limit_of_load (h : load host named = .ok s) :
    ∀ n, s.limit = some n → 1 ≤ n := by
  intro n hn
  have hzero := limit_ne_zero_of_load h
  rw [hn] at hzero
  exact Nat.one_le_iff_ne_zero.2 fun h => hzero (by rw [h])

/-- Every mode that can be set is known to the machine. -/
theorem evaluateNamed_options (s : Settings) :
    s.mode.name ∈ Mode.all.map Mode.name ∧
      ∀ depth text, evaluateNamed (some s.mode.name) (s.options depth) text =
        .ok (evaluate (s.options depth) text) := by
  refine ⟨by cases s.mode <;> simp [Mode.all], ?_⟩
  intro depth text
  simp only [evaluateNamed, Mode.ofName, Option.bind_some, Mode.ofName?_name]
  rfl

end Settings

/-- The message shows the key in quotes. -/
def Names (message key : String) : Prop :=
  ∃ before after, message = before ++ Text.quoted key ++ after

theorem exists_mark_mem_quoted (key : String) :
    ∃ mark ∈ ['\x27', '\x22'], mark ∈ (Text.quoted key).toList := by
  refine ⟨Text.quoteMark key.toList, ?_, by simp [Text.quoted]⟩
  unfold Text.quoteMark
  split <;> simp

/-- What has no quotes in it names no key. -/
theorem not_names_of_no_marks {message : String}
    (h : message.toList.all (· ∉ ['\x27', '\x22']) = true) (key : String) :
    ¬ Names message key := by
  rintro ⟨before, after, rfl⟩
  obtain ⟨mark, hmark, hmem⟩ := exists_mark_mem_quoted key
  have hwithin : mark ∈ (before ++ Text.quoted key ++ after).toList := by
    rw [String.toList_append, String.toList_append]
    exact List.mem_append_left _ (List.mem_append_right _ hmem)
  have habsent : mark ∉ ['\x27', '\x22'] := by
    simpa using List.all_eq_true.1 h mark hwithin
  exact habsent hmark

theorem not_names_hindrance (hindrance : Hindrance) (key : String) :
    ¬ Names hindrance.message key := by
  apply not_names_of_no_marks
  cases hindrance <;> cbv

namespace TableError

theorem message_unknown (path key : String) :
    (unknown key).message path =
      "unknown setting " ++ Text.quoted key ++ (" in " ++ path) :=
  String.append_assoc

theorem message_unfit (path : String) (setting : Setting) (d : Datum) :
    (unfit setting d).message path =
      "setting " ++ Text.quoted setting.name ++ " in " ++ path ++
        " should be " ++ (setting.expected ++ ", not " ++ d.display) :=
  rfl

/-- The complaint about an entry names its key. -/
theorem names_message_refusal (path : String) (entry : String × Datum) :
    Names ((Settings.refusal entry).message path) entry.1 := by
  rw [Settings.refusal]
  cases hkey : Setting.ofName? entry.1 with
  | none => exact ⟨_, _, message_unknown path entry.1⟩
  | some setting =>
      rw [← Setting.name_of_ofName? hkey]
      exact ⟨"setting ", " in " ++ (path ++ (" should be " ++
        (setting.expected ++ ", not " ++ entry.2.display))),
        by simp only [message_unfit, String.append_assoc]⟩

end TableError

/-- The value of an entry under the key of a setting would have to be shown, and
something keeps it from being shown. -/
def Hindered (room : Nat) (hindrance : Hindrance) (entry : String × Datum) :
    Prop :=
  (∃ setting : Setting, setting.name = entry.1) ∧
    entry.2.hindrance? room = some hindrance

theorem hindrance?_refusal_eq_some_iff {room : Nat} {hindrance : Hindrance}
    {entry : String × Datum} :
    (Settings.refusal entry).hindrance? room = some hindrance ↔
      Hindered room hindrance entry := by
  rw [Settings.refusal]
  cases hkey : Setting.ofName? entry.1 with
  | none =>
      have hunknown := Setting.ofName?_eq_none_iff.1 hkey
      exact ⟨nofun,
        fun ⟨⟨setting, hname⟩, _⟩ => absurd hname (hunknown setting)⟩
  | some setting =>
      have hname := Setting.name_of_ofName? hkey
      exact ⟨fun h => ⟨⟨setting, hname⟩, h⟩, And.right⟩

namespace LoadError

theorem ofTable_of_hindered {room : Nat} {path : String} {hindrance : Hindrance}
    {entry : String × Datum} (h : Hindered room hindrance entry) :
    ofTable room path (Settings.refusal entry) = .unshowable hindrance := by
  rw [ofTable, hindrance?_refusal_eq_some_iff.2 h]

/-- A refused entry leads to a verdict, unless its value is nested too deeply to
be shown. -/
theorem isVerdict_ofTable_iff (room : Nat) (path : String)
    (entry : String × Datum) :
    (ofTable room path (Settings.refusal entry)).isVerdict = true ↔
      ¬ Hindered room .deepNesting entry := by
  rw [← hindrance?_refusal_eq_some_iff, ofTable]
  cases (Settings.refusal entry).hindrance? room with
  | none => simp [isVerdict]
  | some hindrance => cases hindrance <;> simp [isVerdict]

/-- What is said of a refused entry names its key, unless its value cannot be
shown. -/
theorem names_message_ofTable_iff (room : Nat) (path : String)
    (entry : String × Datum) :
    Names (ofTable room path (Settings.refusal entry)).message entry.1 ↔
      ∀ hindrance, ¬ Hindered room hindrance entry := by
  simp only [← hindrance?_refusal_eq_some_iff, ofTable]
  cases (Settings.refusal entry).hindrance? room with
  | none =>
      exact iff_of_true (TableError.names_message_refusal path entry) nofun
  | some hindrance =>
      exact iff_of_false (not_names_hindrance hindrance entry.1)
        fun hnone => hnone hindrance rfl

end LoadError

namespace Settings

variable {table : List (String × Datum)} {host : Host} {named : Option String}

/-- Settings are loaded from the tables whose entries are all usable, and any
other table is refused for its first entry that is not.  The failure is a
verdict on that entry and names its key, unless the value that it would show
cannot be shown; of these the values that are nested too deeply lead to no
verdict at all.  What is loaded are the values of the table and the standard
values of what it leaves out, in whatever order the entries stand, and there is
no limit if the table gives none or gives zero.  So everything that is loaded,
from wherever, has a mode that the machine knows and no limit or one of at least
one step. -/
theorem load_refuses_first_unusable
    (htable : TableAt host (path named host.chosen) table) :
    ((∃ e, load host named = .error e) ↔ ∃ entry ∈ table, ¬ Usable entry) ∧
    (∀ e, load host named = .error e →
      ∃ before entry after, table = before ++ entry :: after ∧
        (∀ u ∈ before, Usable u) ∧ ¬ Usable entry ∧
        e = .ofTable host.room (path named host.chosen) (refusal entry) ∧
        (e.isVerdict = true ↔ ¬ Hindered host.room .deepNesting entry) ∧
        (Names e.message entry.1 ↔
          ∀ hindrance, ¬ Hindered host.room hindrance entry)) ∧
    (∀ s, load host named = .ok s →
      (∀ setting, s.value setting =
        (table.lookup setting.name).getD (({} : Settings).value setting)) ∧
      (s.limit = none ↔ table.lookup "limit" = none ∨
        table.lookup "limit" = some (.int 0)) ∧
      ∀ host' named' table', TableAt host' (path named' host'.chosen) table' →
        table'.Perm table → load host' named' = .ok s) ∧
    ∀ host' named' s, load host' named' = .ok s →
      s.mode.name ∈ Mode.all.map Mode.name ∧
      (∀ n, s.limit = some n → 1 ≤ n) ∧
      ∀ depth text, evaluateNamed (some s.mode.name) (s.options depth) text =
        .ok (evaluate (s.options depth) text) := by
  refine ⟨⟨?_, ?_⟩, ?_, ?_, ?_⟩
  · rintro ⟨e, he⟩
    obtain ⟨before, entry, after, rfl, _, hentry, _⟩ :=
      exists_of_load_error htable he
    exact ⟨entry, by simp, hentry⟩
  · rintro ⟨entry, hmem, hentry⟩
    cases hload : load host named with
    | error e => exact ⟨e, rfl⟩
    | ok s =>
        have husable := usable_of_foldlM_put ((load_eq_ok_iff htable).1 hload)
        exact absurd (husable entry hmem) hentry
  · intro e he
    obtain ⟨before, entry, after, hsplit, hbefore, hentry, rfl⟩ :=
      exists_of_load_error htable he
    exact ⟨before, entry, after, hsplit, hbefore, hentry, rfl,
      LoadError.isVerdict_ofTable_iff _ _ entry,
      LoadError.names_message_ofTable_iff _ _ entry⟩
  · intro s hload
    have hresult := (load_eq_ok_iff htable).1 hload
    have hvalue := value_foldlM_put htable.nodup hresult
    refine ⟨hvalue, ?_, ?_⟩
    · rw [limit_eq_none_iff (limit_ne_zero_of_load hload), hvalue]
      change (table.lookup "limit").getD (.int 0) = .int 0 ↔ _
      cases table.lookup "limit" <;> simp
    · intro host' named' table' htable' hperm
      rw [load_eq_ok_iff htable']
      exact ofTable_perm hperm htable.nodup hresult
  · intro host' named' s hload
    obtain ⟨hmode, haccepted⟩ := evaluateNamed_options s
    exact ⟨hmode, one_le_limit_of_load hload, haccepted⟩

/-- A table that names no mode is refused, and one that gives no limit loads. -/
theorem load_refuses_first_unusable_lazy :
    ∃ host host' table table',
      TableAt host (path none host.chosen) table ∧
      table = [("limit", .int 0), ("mode", .text "lazy"), ("steps", .int 3)] ∧
      TableAt host' (path none host'.chosen) table' ∧
      table' = [("trace", .bool true), ("limit", .int 0)] ∧
      (∃ e, load host none = .error e ∧ e.isVerdict = true ∧
        Names e.message "mode") ∧
      ∃ s, load host' none = .ok s ∧ s.limit = none ∧
        s.value .trace = .bool true ∧ s.value .recursionLimit = .int 20000 := by
  let host : Host :=
    .ofText "[stax]\nlimit = 0\nmode = \"lazy\"\nsteps = 3\n"
  let host' : Host := .ofText "[stax]\ntrace = true\nlimit = 0\n"
  have htable : TableAt host (path none host.chosen)
      [("limit", .int 0), ("mode", .text "lazy"), ("steps", .int 3)] :=
    tableAt_ofText (Toml.parse_of_sameEntries (by decide +kernel))
      (by decide)
  have htable' : TableAt host' (path none host'.chosen)
      [("trace", .bool true), ("limit", .int 0)] :=
    tableAt_ofText (Toml.parse_of_sameEntries (by decide +kernel))
      (by decide)
  have hlazy : ¬ Usable ("mode", .text "lazy") :=
    not_usable_of_not_accepts .mode rfl
  obtain ⟨hrefused, hfirst, _⟩ := load_refuses_first_unusable htable
  obtain ⟨e, he⟩ := hrefused.2 ⟨("mode", .text "lazy"), by simp, hlazy⟩
  obtain ⟨before, entry, after, hsplit, hbefore, hentry, _, hverdict, hnames⟩ :=
    hfirst e he
  have hmode : entry = ("mode", .text "lazy") := by
    rcases before with _ | ⟨a, _ | ⟨b, before⟩⟩
    · cases hsplit
      exact absurd (.limit (Int.le_refl 0)) hentry
    · cases hsplit
      rfl
    · obtain ⟨_, hrest⟩ := List.cons.inj hsplit
      obtain ⟨rfl, _⟩ := List.cons.inj hrest
      exact absurd (hbefore _ (by simp)) hlazy
  subst hmode
  have hshown : ∀ hindrance, ¬ Hindered host.room hindrance
      ("mode", .text "lazy") := fun _ hhindered => nomatch hhindered.2
  have hloaded : load host' none = .ok { trace := true } :=
    (load_eq_ok_iff htable').2 rfl
  obtain ⟨_, _, htaken, _⟩ := load_refuses_first_unusable htable'
  obtain ⟨hvalue, hnone, _⟩ := htaken _ hloaded
  exact ⟨host, host', _, _, htable, rfl, htable', rfl,
    ⟨e, he, hverdict.2 (hshown _), hnames.2 hshown⟩,
    _, hloaded, hnone.2 (Or.inr rfl), hvalue .trace, hvalue .recursionLimit⟩

/-- Whether a file has nothing but a table that gives no mode but a value which
cannot be shown. -/
def hindersMode (hindrance : Hindrance) : List (String × Datum) → Bool
  | [("stax", .table [("mode", d)])] =>
    !Setting.isMode d && d.hindrance? 1000 = some hindrance
  | _ => false

/-- Such a table is refused without a word on the mode. -/
theorem exists_load_of_hindersMode {cs : List Char} {hindrance : Hindrance}
    (h : (Toml.document (Toml.unifyBreaks cs)).any (hindersMode hindrance)) :
    ∃ host entry, host = Host.ofText (String.ofList cs) ∧
      TableAt host (path none host.chosen) [entry] ∧ entry.1 = "mode" ∧
      ¬ Usable entry ∧ Hindered host.room hindrance entry ∧
      load host none = .error (.unshowable hindrance) := by
  obtain ⟨entries, hread, hmode⟩ := (Option.any_eq_true _ _).1 h
  unfold hindersMode at hmode
  split at hmode
  · next d =>
    rw [Bool.and_eq_true, Bool.not_eq_true', decide_eq_true_eq] at hmode
    obtain ⟨hmode, hhindered⟩ := hmode
    have htable : TableAt (.ofText (String.ofList cs)) (path none none)
        [("mode", d)] :=
      tableAt_ofText ((Toml.parse_ofList cs).trans hread) (by simp)
    have hentry : ¬ Usable ("mode", d) := not_usable_of_not_accepts .mode hmode
    have hhindered : Hindered 1000 hindrance ("mode", d) :=
      ⟨⟨.mode, rfl⟩, hhindered⟩
    refine ⟨_, _, rfl, htable, rfl, hentry, hhindered, ?_⟩
    rw [load_of_tableAt htable, ofTable, List.foldlM_cons,
      put_of_not_usable hentry]
    exact congrArg Except.error (LoadError.ofTable_of_hindered hhindered)
  · cases hmode

/-- The characters of a file in which the mode is a whole number of 3600
hexadecimal digits. -/
def longModeFile : List Char :=
  "[stax]\nmode = 0x".toList ++ List.replicate 3600 'f' ++ ['\n']

/-- The characters of a file in which the mode is a number within 1100
tables. -/
def deepModeFile : List Char :=
  "[stax]\nmode".toList ++ (List.replicate 1100 ['.', 'a']).flatten ++
    " = 1\n".toList

theorem hindersMode_longModeFile :
    (Toml.document (Toml.unifyBreaks longModeFile)).any
      (hindersMode .longNumber) = true := by
  decide +kernel

theorem hindersMode_deepModeFile :
    (Toml.document (Toml.unifyBreaks deepModeFile)).any
      (hindersMode .deepNesting) = true := by
  decide +kernel

/-- Both values are no modes and cannot be shown.  The number has too many
decimal digits, and its table is refused with a message that does not say which
entry is wrong.  The tables within tables are nested too deeply, and nothing is
said about them at all. -/
theorem long_value_goes_unnamed :
    (∃ host entry e, host = Host.ofText (String.ofList longModeFile) ∧
      TableAt host (path none host.chosen) [entry] ∧ entry.1 = "mode" ∧
      ¬ Usable entry ∧ load host none = .error e ∧ e.isVerdict = true ∧
      e.message = "Exceeds the limit (4300 digits) for integer string " ++
        "conversion; use sys.set_int_max_str_digits() to increase the limit" ∧
      ¬ Names e.message entry.1) ∧
    ∃ host entry e, host = Host.ofText (String.ofList deepModeFile) ∧
      TableAt host (path none host.chosen) [entry] ∧ entry.1 = "mode" ∧
      ¬ Usable entry ∧ load host none = .error e ∧ e.isVerdict = false := by
  constructor
  · obtain ⟨host, entry, hhost, htable, hkey, hentry, _, hload⟩ :=
      exists_load_of_hindersMode hindersMode_longModeFile
    exact ⟨host, entry, _, hhost, htable, hkey, hentry, hload, rfl, by decide,
      not_names_hindrance .longNumber entry.1⟩
  · obtain ⟨host, entry, hhost, htable, hkey, hentry, _, hload⟩ :=
      exists_load_of_hindersMode hindersMode_deepModeFile
    exact ⟨host, entry, _, hhost, htable, hkey, hentry, hload, rfl⟩

end Settings

end Combinatory
