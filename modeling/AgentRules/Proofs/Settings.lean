import Mathlib
import AgentRules.Command
import AgentRules.Proofs.Number.Rounding

/-!
# Settings in range

Every key of a settings table has a reader, and a value that is left out counts as the default. What
comes of a table is known in full: which settings it gives (`ofTable_eq_ok_iff`), and which faults are no
refusal of a value but stop the program (`stops_ofTable_iff`). Main statement:
`table_read_or_refused_iff`.
-/

namespace AgentRules

/-! ## Choices -/

theorem find?_name_eq_some_iff {α : Type} {name : α → String} {all : List α}
    (hall : ∀ a, (all.find? fun b => (name b).toList = (name a).toList) = some a) {u : Text} {a : α} :
    (all.find? fun b => (name b).toList = u) = some a ↔ u = (name a).toList := by
  constructor
  · intro h
    simpa [eq_comm] using List.find?_some h
  · rintro rfl
    exact hall a

theorem Format.ofText?_eq_some_iff (u : Text) (f : Format) : ofText? u = some f ↔ Text.lower u = f.name.toList :=
  find?_name_eq_some_iff fun a => by cases a <;> rfl

theorem FailOn.ofText?_eq_some_iff (u : Text) (f : FailOn) : ofText? u = some f ↔ Text.lower u = f.name.toList :=
  find?_name_eq_some_iff fun a => by cases a <;> rfl

/-! ## Ranges -/

structure LineLimits.InRange (l : LineLimits) : Prop where
  warning_pos : 0 < l.warning
  warning_lt : l.warning < l.error

structure Likeness.InRange (l : Likeness) : Prop where
  threshold : ∃ q : ℚ, l.threshold = .finite q ∧ 0 < q ∧ q ≤ 1
  minLength : 0 ≤ l.minLength

structure Settings.InRange (s : Settings) : Prop where
  limits : s.limits.InRange
  likeness : s.likeness.InRange

namespace Settings

/-! ## Values -/

/-- A value that is left out says the default, and one that is given what it is taken for. -/
inductive Says {α : Type} (takes : Toml → α → Prop) (default : α) : Option Toml → α → Prop
  | omitted : Says takes default none default
  | given {v : Toml} {a : α} (h : takes v a) : Says takes default (some v) a

def IsTable (v : Toml) (ms : Toml.Table) : Prop := v = .table ms

def IsInteger (v : Toml) (n : ℤ) : Prop := v = .int n

/-- A number of the format, or an integer that is in its range. -/
def IsNumber (v : Toml) (x : Binary64) : Prop := v = .real x ∨ ∃ n, v = .int n ∧ Binary64.ofInt? n = some x

def IsStrings (v : Toml) (ss : Option (List String)) : Prop :=
  ∃ l : List String, v = .array (l.map fun s => .string s.toList) ∧ ss = some l

/-- A string that is the name of a choice in letters of any case. -/
def Names {α : Type} (name : α → String) (v : Toml) (a : α) : Prop :=
  ∃ u, v = .string u ∧ Text.lower u = (name a).toList

section
variable {α : Type} {takes : Toml → α → Prop} {default a : α} {v : Toml}

@[simp] theorem says_none_iff : Says takes default none a ↔ a = default :=
  ⟨fun h => by cases h; rfl, fun h => h ▸ .omitted⟩

@[simp] theorem says_some_iff : Says takes default (some v) a ↔ takes v a :=
  ⟨fun h => by cases h; assumption, .given⟩

end

/-! ## Readers -/

theorem guard_eq_ok_iff {ε α : Type} {p : Prop} [Decidable p] {e : ε} {x : Except ε α} {a : α} :
    (if p then .error e else x) = .ok a ↔ ¬ p ∧ x = .ok a := by
  split_ifs with hp <;> simp [hp]

theorem bind_eq_ok_iff {ε α β : Type} {x : Except ε α} {g : α → Except ε β} {b : β} :
    x >>= g = .ok b ↔ ∃ a, x = .ok a ∧ g a = .ok b := by
  cases x with
  | error e => exact ⟨nofun, nofun⟩
  | ok a => exact ⟨fun h => ⟨a, rfl, h⟩, fun ⟨c, hc, h⟩ => by cases hc; exact h⟩

theorem map_eq_ok_iff {ε α β : Type} {x : Except ε α} {f : α → β} {b : β} :
    x.map f = .ok b ↔ ∃ a, x = .ok a ∧ f a = b := by
  cases x <;> simp [Except.map]

theorem table_eq_ok_iff {field : String} {v : Option Toml} {ms : Toml.Table} :
    table field v = .ok ms ↔ Says IsTable [] v ms := by
  cases v with
  | none => simp [table, eq_comm]
  | some v => cases v <;> simp [table, IsTable]

theorem integer_eq_ok_iff {field : String} {default n : ℤ} {v : Option Toml} :
    integer field default v = .ok n ↔ Says IsInteger default v n := by
  cases v with
  | none => simp [integer, eq_comm]
  | some v => cases v <;> simp [integer, IsInteger]

theorem number_eq_ok_iff {field : String} {default x : Binary64} {v : Option Toml} :
    number field default v = .ok x ↔ Says IsNumber default v x := by
  cases v with
  | none => simp [number, eq_comm]
  | some v =>
    cases v with
    | int n => cases h : Binary64.ofInt? n <;> simp [number, IsNumber, h]
    | _ => simp [number, IsNumber]

theorem stringItems_eq_ok_iff {vs : List Toml} {ss : List String} :
    stringItems vs = .ok ss ↔ vs = ss.map fun s => .string s.toList := by
  induction vs generalizing ss with
  | nil => cases ss <;> simp [stringItems]
  | cons v vs ih =>
    cases v with
    | string u =>
      rw [stringItems, map_eq_ok_iff]
      constructor
      · rintro ⟨us, hus, rfl⟩
        rw [ih.mp hus, List.map_cons, String.toList_ofList]
      · intro h
        obtain ⟨s, us, rfl, hu, hus⟩ := List.map_eq_cons_iff.mp h.symm
        exact ⟨us, ih.mpr hus.symm, by rw [← Toml.string.inj hu, String.ofList_toList]⟩
    | _ => cases ss <;> simp [stringItems]

theorem strings?_eq_ok_iff {v : Option Toml} {ss : Option (List String)} :
    strings? v = .ok ss ↔ Says IsStrings none v ss := by
  cases v with
  | none => simp [strings?, eq_comm]
  | some v =>
    cases v with
    | array vs =>
      simp only [strings?, IsStrings, map_eq_ok_iff, stringItems_eq_ok_iff, says_some_iff, Toml.array.injEq]
      exact ⟨fun ⟨l, hl, h⟩ => ⟨l, hl, h.symm⟩, fun ⟨l, hl, h⟩ => ⟨l, hl, h.symm⟩⟩
    | _ => simp [strings?, IsStrings]

section
variable {α : Type} {name : α → String} {ofText? : Text → Option α}
  (hname : ∀ u a, ofText? u = some a ↔ Text.lower u = (name a).toList)
include hname

theorem choice_eq_ok_iff {field : String} {names : List String} {default a : α} {v : Option Toml} :
    choice field names ofText? default v = .ok a ↔ Says (Names name) default v a := by
  cases v with
  | none => simp [choice, eq_comm]
  | some v =>
    cases v with
    | string u => cases h : ofText? u <;> simp [choice, Names, h, ← hname]
    | _ => simp [choice, Names]

end

/-! ## Faults -/

/-- The fault is a value that is refused, and no reason to stop the program. -/
def Fault.IsRefused (f : Fault) : Prop := Command.settingsEnding f = .refused ⟨"config", f.message⟩

/-- A fault that stops the program. -/
def Stops {α : Type} (x : Except Fault α) (f : Fault) : Prop := x = .error f ∧ ¬ f.IsRefused

theorem stops_bind_iff {α β : Type} {x : Except Fault α} {g : α → Except Fault β} {f : Fault} :
    Stops (x >>= g) f ↔ Stops x f ∨ ∃ a, x = .ok a ∧ Stops (g a) f := by
  cases x with
  | error e =>
    have hbind : (Except.error e >>= g : Except Fault β) = .error e := rfl
    simp [Stops, hbind]
  | ok a =>
    have hbind : (Except.ok a >>= g : Except Fault β) = g a := rfl
    simp [Stops, hbind]

theorem not_stops_ok {α : Type} {a : α} {f : Fault} : ¬ Stops (.ok a) f := by
  simp [Stops]

theorem not_stops_pure {α : Type} {a : α} {f : Fault} : ¬ Stops (pure a) f := not_stops_ok

theorem stops_error_iff {α : Type} {e f : Fault} : Stops (.error e : Except Fault α) f ↔ f = e ∧ ¬ e.IsRefused := by
  rw [Stops, Except.error.injEq]
  exact ⟨fun ⟨he, hf⟩ => ⟨he.symm, he ▸ hf⟩, fun ⟨hf, he⟩ => ⟨hf.symm, hf ▸ he⟩⟩

theorem not_stops_error {α : Type} {e f : Fault} (h : e.IsRefused) : ¬ Stops (.error e : Except Fault α) f :=
  fun hs => (stops_error_iff.mp hs).2 h

theorem stops_guard_iff {α : Type} {p : Prop} [Decidable p] {e f : Fault} (he : e.IsRefused) {x : Except Fault α} :
    Stops (if p then .error e else x) f ↔ ¬ p ∧ Stops x f := by
  split_ifs with hp
  · simp [hp, not_stops_error he]
  · simp [hp]

theorem not_isRefused_tooLarge : ¬ Fault.tooLarge.IsRefused := by
  simp [Fault.IsRefused, Command.settingsEnding]

theorem not_isRefused_deepText : ¬ Fault.deepText.IsRefused := by
  simp [Fault.IsRefused, Command.settingsEnding]

theorem not_stops_table {field : String} {v : Option Toml} {f : Fault} : ¬ Stops (table field v) f := by
  unfold table
  split
  · exact not_stops_ok
  · exact not_stops_ok
  · exact not_stops_error rfl

theorem not_stops_integer {field : String} {default : ℤ} {v : Option Toml} {f : Fault} :
    ¬ Stops (integer field default v) f := by
  unfold integer
  split
  · exact not_stops_ok
  · exact not_stops_ok
  · exact not_stops_error rfl

theorem stops_map_iff {α β : Type} {x : Except Fault α} {g : α → β} {f : Fault} : Stops (x.map g) f ↔ Stops x f := by
  cases x <;> simp [Stops, Except.map]

theorem not_stops_stringItems {vs : List Toml} {f : Fault} : ¬ Stops (stringItems vs) f := by
  induction vs with
  | nil => exact not_stops_ok
  | cons v vs ih =>
    cases v with
    | string u => rwa [stringItems, stops_map_iff]
    | _ => exact not_stops_error rfl

theorem not_stops_strings? {v : Option Toml} {f : Fault} : ¬ Stops (strings? v) f := by
  unfold strings?
  split
  · exact not_stops_ok
  · rw [stops_map_iff]
    exact not_stops_stringItems
  · exact not_stops_error rfl

theorem stops_number_iff {field : String} {default : Binary64} {v : Option Toml} {f : Fault} :
    Stops (number field default v) f ↔ f = .tooLarge ∧ ∃ n : ℤ, v = some (.int n) ∧ 2 ^ 1024 - 2 ^ 970 ≤ |n| := by
  simp only [← Binary64.ofInt?_eq_none_iff]
  unfold number
  split
  · simp [not_stops_ok]
  · simp [not_stops_ok]
  · next n =>
    cases h : Binary64.ofInt? n with
    | some x => simp [h, not_stops_ok]
    | none => simp [h, stops_error_iff, not_isRefused_tooLarge]
  · next v hv hi =>
    refine iff_of_false (not_stops_error rfl) ?_
    rintro ⟨-, n, he, -⟩
    exact hi n (Option.some.inj he)

/-! ### Writing values out -/

mutual

/-- How many values deep a value is, itself counted. -/
def depth : Toml → ℕ
  | .array vs => depthOfItems vs + 1
  | .table ms => depthOfMembers ms + 1
  | .tables latest => depthOfTables latest + 1
  | _ => 1

def depthOfItems : List Toml → ℕ
  | [] => 0
  | v :: vs => max (depth v) (depthOfItems vs)

def depthOfMembers : List (Text × Toml) → ℕ
  | [] => 0
  | (_, v) :: ms => max (depth v) (depthOfMembers ms)

def depthOfTables : List (List (Text × Toml)) → ℕ
  | [] => 0
  | ms :: earlier => max (depthOfMembers ms + 1) (depthOfTables earlier)

end

theorem depth_pos (v : Toml) : 0 < depth v := by
  cases v <;> simp [depth]

/-- A fault of writing out: an integer that is too long, or a value that lies deeper than is written. -/
def IsTextFault (d depth : ℕ) (f : Fault) : Prop := f = .longText ∨ f = .deepText ∧ d < depth

theorem IsTextFault.mono {d e m n : ℕ} {f : Fault} (h : IsTextFault d m f) (hdn : d < m → e < n) :
    IsTextFault e n f :=
  h.imp_right fun ⟨hf, hd⟩ => ⟨hf, hdn hd⟩

theorem isTextFault_of_int {d : ℕ} {n : ℤ} {f : Fault} (h : textFault? (d + 1) (.int n) = some f) :
    f = .longText := by
  rw [textFault?] at h
  split at h
  · exact (Option.some.inj h).symm
  · cases h

mutual

theorem isTextFault_of_textFault? : ∀ (d : ℕ) (v : Toml) {f : Fault},
    textFault? d v = some f → IsTextFault d (depth v) f
  | 0, v => fun h => Or.inr ⟨by rw [textFault?] at h; exact (Option.some.inj h).symm, depth_pos v⟩
  | d + 1, .int n => fun h => Or.inl (isTextFault_of_int h)
  | d + 1, .array vs => fun h => (isTextFault_of_items d vs h).mono fun hd => by rw [depth]; omega
  | d + 1, .table ms => fun h => (isTextFault_of_members d ms h).mono fun hd => by rw [depth]; omega
  | d + 1, .tables latest => fun h => (isTextFault_of_tables d latest h).mono fun hd => by rw [depth]; omega
  | d + 1, .bool _ => nofun
  | d + 1, .real _ => nofun
  | d + 1, .string _ => nofun
  | d + 1, .moment => nofun

theorem isTextFault_of_items : ∀ (d : ℕ) (vs : List Toml) {f : Fault},
    textFaultOfItems? d vs = some f → IsTextFault d (depthOfItems vs) f
  | _, [] => nofun
  | d, v :: vs => by
    intro h
    rw [textFaultOfItems?, Option.or_eq_some_iff] at h
    rcases h with h | ⟨-, h⟩
    · exact (isTextFault_of_textFault? d v h).mono fun hd => by rw [depthOfItems]; omega
    · exact (isTextFault_of_items d vs h).mono fun hd => by rw [depthOfItems]; omega

theorem isTextFault_of_members : ∀ (d : ℕ) (ms : List (Text × Toml)) {f : Fault},
    textFaultOfMembers? d ms = some f → IsTextFault d (depthOfMembers ms) f
  | _, [] => nofun
  | d, (_, v) :: ms => by
    intro h
    rw [textFaultOfMembers?, Option.or_eq_some_iff] at h
    rcases h with h | ⟨-, h⟩
    · exact (isTextFault_of_textFault? d v h).mono fun hd => by rw [depthOfMembers]; omega
    · exact (isTextFault_of_members d ms h).mono fun hd => by rw [depthOfMembers]; omega

theorem isTextFault_of_tables : ∀ (d : ℕ) (latest : List (List (Text × Toml))) {f : Fault},
    textFaultOfTables? d latest = some f → IsTextFault d (depthOfTables latest) f
  | _, [] => by intro h; rw [textFaultOfTables?] at h; cases h
  | 0, ms :: earlier => by
    intro h
    rw [textFaultOfTables?] at h
    exact Or.inr ⟨(Option.some.inj h).symm, by rw [depthOfTables]; omega⟩
  | d + 1, ms :: earlier => by
    intro h
    rw [textFaultOfTables?, Option.or_eq_some_iff] at h
    rcases h with h | ⟨-, h⟩
    · exact (isTextFault_of_tables (d + 1) earlier h).mono fun hd => by rw [depthOfTables]; omega
    · exact (isTextFault_of_members d ms h).mono fun hd => by rw [depthOfTables]; omega

end

theorem stops_choice_iff {α : Type} {field : String} {names : List String} {ofText? : Text → Option α} {default : α}
    {v : Option Toml} {f : Fault} : Stops (choice field names ofText? default v) f ↔
      f = .deepText ∧ ∃ u, v = some u ∧ textFault? textDepth u = some .deepText := by
  cases v with
  | none => simp [choice, not_stops_ok]
  | some v =>
    -- A value that is no string is written out before it is refused.
    have hother : Stops (.error ((textFault? textDepth v).getD (.notChoice field names)) : Except Fault α) f ↔
        f = .deepText ∧ textFault? textDepth v = some .deepText := by
      cases h : textFault? textDepth v with
      | none => simp [not_stops_error (e := .notChoice field names) rfl]
      | some e =>
        rcases isTextFault_of_textFault? _ _ h with rfl | ⟨rfl, -⟩
        · simp [not_stops_error (e := .longText) rfl]
        · simp [stops_error_iff, not_isRefused_deepText]
    simp only [Option.some.injEq, exists_eq_left']
    cases v with
    | string u =>
      have hnone : textFault? textDepth (.string u) = none := rfl
      refine iff_of_false ?_ (by simp [hnone])
      rw [choice]
      split
      · exact not_stops_ok
      · exact not_stops_error rfl
    | _ => exact hother

/-! ## Groups of values -/

theorem limitsOf_eq (t : Toml.Table) : limitsOf t = (do
    let warning ← integer "lint.max_lines_warning" 150 (get? "max_lines_warning" t)
    let error ← integer "lint.max_lines_error" 300 (get? "max_lines_error" t)
    if warning ≤ 0 then .error .warningRange
    else if error ≤ warning then .error .errorRange
    else .ok ⟨warning, error⟩) := rfl

theorem limitsOf_eq_ok_iff {t : Toml.Table} {l : LineLimits} : limitsOf t = .ok l ↔
    Says IsInteger 150 (get? "max_lines_warning" t) l.warning ∧
      Says IsInteger 300 (get? "max_lines_error" t) l.error ∧ l.InRange := by
  simp only [limitsOf_eq, bind_eq_ok_iff, integer_eq_ok_iff, guard_eq_ok_iff, not_le]
  constructor
  · rintro ⟨w, hw, e, he, hpos, hlt, h⟩
    cases h
    exact ⟨hw, he, hpos, hlt⟩
  · rintro ⟨hw, he, hpos, hlt⟩
    exact ⟨_, hw, _, he, hpos, hlt, rfl⟩

theorem not_stops_limitsOf {t : Toml.Table} {f : Fault} : ¬ Stops (limitsOf t) f := by
  have hwarning : Fault.warningRange.IsRefused := rfl
  have herror : Fault.errorRange.IsRefused := rfl
  simp only [limitsOf_eq, stops_bind_iff, not_stops_integer, stops_guard_iff hwarning, stops_guard_iff herror,
    not_stops_ok, and_false, exists_false, or_false, not_false_iff]

theorem likenessOf_eq (t : Toml.Table) : likenessOf t = (do
    let threshold ← number "redundancy.threshold" (.ofRat (mkRat 3 5)) (get? "threshold" t)
    if !((Binary64.finite 0).lt threshold && threshold.le (.finite 1)) then .error .thresholdRange
    else do
      let minLength ← integer "redundancy.min_line_length" 10 (get? "min_line_length" t)
      if minLength < 0 then .error .lengthRange
      else .ok ⟨threshold, minLength⟩) := rfl

theorem isPart_iff {x : Binary64} : ((Binary64.finite 0).lt x && x.le (.finite 1)) = true ↔
    ∃ q : ℚ, x = .finite q ∧ 0 < q ∧ q ≤ 1 := by
  cases x with
  | nan => simp [Binary64.lt]
  | infinite b => cases b <;> simp [Binary64.lt, Binary64.le]
  | finite q => simp [Binary64.lt, Binary64.le, le_iff_lt_or_eq]

theorem likenessOf_eq_ok_iff {t : Toml.Table} {l : Likeness} : likenessOf t = .ok l ↔
    Says IsNumber (.ofRat (mkRat 3 5)) (get? "threshold" t) l.threshold ∧
      Says IsInteger 10 (get? "min_line_length" t) l.minLength ∧ l.InRange := by
  simp only [likenessOf_eq, bind_eq_ok_iff, number_eq_ok_iff, integer_eq_ok_iff, guard_eq_ok_iff, Bool.not_eq_true',
    Bool.not_eq_false, isPart_iff, not_lt]
  constructor
  · rintro ⟨x, hx, hpart, n, hn, hpos, h⟩
    cases h
    exact ⟨hx, hn, hpart, hpos⟩
  · rintro ⟨hx, hn, hpart, hpos⟩
    exact ⟨_, hx, hpart, _, hn, hpos, rfl⟩

theorem stops_likenessOf_iff {t : Toml.Table} {f : Fault} : Stops (likenessOf t) f ↔
    f = .tooLarge ∧ ∃ n : ℤ, get? "threshold" t = some (.int n) ∧ 2 ^ 1024 - 2 ^ 970 ≤ |n| := by
  have hthreshold : Fault.thresholdRange.IsRefused := rfl
  have hlength : Fault.lengthRange.IsRefused := rfl
  simp only [likenessOf_eq, stops_bind_iff, stops_number_iff, not_stops_integer, stops_guard_iff hthreshold,
    stops_guard_iff hlength, not_stops_ok, and_false, exists_false, or_false]

/-! ## Whole tables -/

/-- The tables below a table. -/
structure Groups (t checks lint redundancy : Toml.Table) : Prop where
  checks : Says IsTable [] (get? "checks" t) checks
  lint : Says IsTable [] (get? "lint" t) lint
  redundancy : Says IsTable [] (get? "redundancy" t) redundancy

/-- The settings that a table with some tables below it gives. -/
structure Gives (source : Path) (t checks lint redundancy : Toml.Table) (s : Settings) : Prop where
  format : Says (Names Format.name) .human (get? "format" t) s.format
  failOn : Says (Names FailOn.name) .error (get? "fail_on" t) s.failOn
  enable : Says IsStrings none (get? "enable" checks) s.selection.enable
  disable : ∃ ids, Says IsStrings none (get? "disable" checks) ids ∧ s.selection.disable = ids.getD []
  warning : Says IsInteger 150 (get? "max_lines_warning" lint) s.limits.warning
  error : Says IsInteger 300 (get? "max_lines_error" lint) s.limits.error
  threshold : Says IsNumber (.ofRat (mkRat 3 5)) (get? "threshold" redundancy) s.likeness.threshold
  minLength : Says IsInteger 10 (get? "min_line_length" redundancy) s.likeness.minLength
  source : s.source = some source

theorem ofTable_eq_ok_iff {source : Path} {t : Toml.Table} {s : Settings} : ofTable source t = .ok s ↔
    (∃ checks lint redundancy, Groups t checks lint redundancy ∧ Gives source t checks lint redundancy s) ∧
      s.InRange := by
  unfold ofTable
  simp only [bind_eq_ok_iff, table_eq_ok_iff, choice_eq_ok_iff Format.ofText?_eq_some_iff,
    choice_eq_ok_iff FailOn.ofText?_eq_some_iff, strings?_eq_ok_iff, limitsOf_eq_ok_iff, likenessOf_eq_ok_iff]
  constructor
  · rintro ⟨checks, hc, lint, hl, redundancy, hr, format, hf, failOn, ho, enable, he, disable, hd, limits,
      ⟨hw, hx, hlr⟩, likeness, ⟨ht, hm, hkr⟩, h⟩
    cases h
    exact ⟨⟨checks, lint, redundancy, ⟨hc, hl, hr⟩, ⟨hf, ho, he, ⟨disable, hd, rfl⟩, hw, hx, ht, hm, rfl⟩⟩, hlr, hkr⟩
  · rintro ⟨⟨checks, lint, redundancy, ⟨hc, hl, hr⟩, h⟩, hlr, hkr⟩
    obtain ⟨ids, hids, hdisable⟩ := h.disable
    refine ⟨checks, hc, lint, hl, redundancy, hr, _, h.format, _, h.failOn, _, h.enable, ids, hids, _,
      ⟨h.warning, h.error, hlr⟩, _, ⟨h.threshold, h.minLength, hkr⟩, ?_⟩
    rw [← hdisable, ← h.source]
    rfl

/-- **Tables that stop the program.** A value that stands where a choice belongs lies too deep to be written
out, or an integer that stands for a part of lines is out of range for the format. What is read before it is
in order. -/
inductive Strays (t : Toml.Table) : Fault → Prop
  | deepFormat {checks lint redundancy : Toml.Table} {v : Toml} (groups : Groups t checks lint redundancy)
      (at_format : get? "format" t = some v) (deep : textFault? textDepth v = some .deepText) : Strays t .deepText
  | deepFailOn {checks lint redundancy : Toml.Table} {format : Format} {v : Toml}
      (groups : Groups t checks lint redundancy) (hformat : Says (Names Format.name) .human (get? "format" t) format)
      (at_failOn : get? "fail_on" t = some v) (deep : textFault? textDepth v = some .deepText) : Strays t .deepText
  | largeThreshold {checks lint redundancy : Toml.Table} {format : Format} {failOn : FailOn}
      {enable disable : Option (List String)} {limits : LineLimits} {n : ℤ}
      (groups : Groups t checks lint redundancy) (hformat : Says (Names Format.name) .human (get? "format" t) format)
      (hfailOn : Says (Names FailOn.name) .error (get? "fail_on" t) failOn)
      (henable : Says IsStrings none (get? "enable" checks) enable)
      (hdisable : Says IsStrings none (get? "disable" checks) disable)
      (hwarning : Says IsInteger 150 (get? "max_lines_warning" lint) limits.warning)
      (herror : Says IsInteger 300 (get? "max_lines_error" lint) limits.error) (hlimits : limits.InRange)
      (at_threshold : get? "threshold" redundancy = some (.int n)) (large : 2 ^ 1024 - 2 ^ 970 ≤ |n|) :
      Strays t .tooLarge

theorem stops_ofTable_iff {source : Path} {t : Toml.Table} {f : Fault} : Stops (ofTable source t) f ↔ Strays t f := by
  unfold ofTable
  simp only [stops_bind_iff, not_stops_table, stops_choice_iff, not_stops_strings?, not_stops_limitsOf,
    stops_likenessOf_iff, not_stops_pure, false_or, or_false, and_false, exists_false, table_eq_ok_iff,
    choice_eq_ok_iff Format.ofText?_eq_some_iff, choice_eq_ok_iff FailOn.ofText?_eq_some_iff, strings?_eq_ok_iff,
    limitsOf_eq_ok_iff]
  constructor
  · rintro ⟨checks, hc, lint, hl, redundancy, hr, ⟨rfl, v, hv, hd⟩ | ⟨format, hf, ⟨rfl, v, hv, hd⟩ | h⟩⟩
    · exact .deepFormat ⟨hc, hl, hr⟩ hv hd
    · exact .deepFailOn ⟨hc, hl, hr⟩ hf hv hd
    · obtain ⟨failOn, ho, enable, he, disable, hdis, limits, ⟨hw, hx, hlr⟩, rfl, n, hn, hbig⟩ := h
      exact .largeThreshold ⟨hc, hl, hr⟩ hf ho he hdis hw hx hlr hn hbig
  · intro h
    cases h with
    | deepFormat g hv hd =>
      exact ⟨_, g.checks, _, g.lint, _, g.redundancy, .inl ⟨rfl, _, hv, hd⟩⟩
    | deepFailOn g hf hv hd =>
      exact ⟨_, g.checks, _, g.lint, _, g.redundancy, .inr ⟨_, hf, .inl ⟨rfl, _, hv, hd⟩⟩⟩
    | largeThreshold g hf ho he hdis hw hx hlr hn hbig =>
      exact ⟨_, g.checks, _, g.lint, _, g.redundancy, .inr ⟨_, hf, .inr ⟨_, ho, _, he, _, hdis, _, ⟨hw, hx, hlr⟩,
        rfl, _, hn, hbig⟩⟩⟩

theorem Strays.cause {t : Toml.Table} {f : Fault} (h : Strays t f) :
    (f = .deepText ∧ ∃ v, (get? "format" t = some v ∨ get? "fail_on" t = some v) ∧ textDepth < depth v) ∨
      (f = .tooLarge ∧ ∃ redundancy n, get? "redundancy" t = some (.table redundancy) ∧
        get? "threshold" redundancy = some (.int n) ∧ 2 ^ 1024 - 2 ^ 970 ≤ |n|) := by
  have hdeep : ∀ {v}, textFault? textDepth v = some .deepText → textDepth < depth v := fun hv =>
    (isTextFault_of_textFault? _ _ hv).elim nofun (·.2)
  cases h with
  | deepFormat _ hv hd => exact .inl ⟨rfl, _, .inl hv, hdeep hd⟩
  | deepFailOn _ _ hv hd => exact .inl ⟨rfl, _, .inr hv, hdeep hd⟩
  | @largeThreshold _ _ redundancy _ _ _ _ _ n g _ _ _ _ _ _ _ hn hbig =>
    refine .inr ⟨rfl, redundancy, n, ?_, hn, hbig⟩
    have hg := g.redundancy
    generalize get? "redundancy" t = v at hg ⊢
    cases hg with
    | omitted => cases hn
    | given h => rw [h]

/-! ## Loading -/

theorem inRange_default : ({} : Settings).InRange where
  limits := ⟨by decide, by decide⟩
  likeness := ⟨⟨mkRat 5404319552844595 9007199254740992, by decide +kernel, by decide +kernel, by decide +kernel⟩,
    by decide⟩

theorem inRange_of_ofTable {source : Path} {t : Toml.Table} {s : Settings} (h : ofTable source t = .ok s) :
    s.InRange :=
  (ofTable_eq_ok_iff.mp h).2

theorem inRange_of_ofNamedFile {w : Workspace} {dir : Place} {config : Path} {s : Settings}
    (h : ofNamedFile w dir config = .ok s) : s.InRange := by
  obtain ⟨found, -, h⟩ := bind_eq_ok_iff.mp h
  cases found with
  | none => cases h
  | some place =>
    obtain ⟨t, -, h⟩ := bind_eq_ok_iff.mp h
    exact inRange_of_ofTable h

theorem inRange_of_ofSharedFile {w : Workspace} {dir : Place} {s : Settings}
    (h : ofSharedFile w dir = .ok s) : s.InRange := by
  obtain ⟨found, -, h⟩ := bind_eq_ok_iff.mp h
  cases found with
  | none => cases h; exact inRange_default
  | some place =>
    obtain ⟨t, -, h⟩ := bind_eq_ok_iff.mp h
    split_ifs at h
    · cases h; exact inRange_default
    · exact inRange_of_ofTable h

theorem inRange_of_ofFirstFile {w : Workspace} {dir : Place} {names : List String} {s : Settings}
    (h : ofFirstFile w dir names = .ok s) : s.InRange := by
  -- A name without a file passes the search on to the names after it.
  induction names with
  | nil => exact inRange_of_ofSharedFile h
  | cons name names ih =>
    obtain ⟨found, -, h⟩ := bind_eq_ok_iff.mp h
    cases found with
    | none => exact ih h
    | some place =>
      obtain ⟨t, -, h⟩ := bind_eq_ok_iff.mp h
      exact inRange_of_ofTable h

theorem inRange_of_load {w : Workspace} {project : Path} {config? : Option Path} {s : Settings}
    (h : load w project config? = .ok s) : s.InRange := by
  unfold load at h
  split_ifs at h
  cases config? with
  | some config => exact inRange_of_ofNamedFile h
  | none => exact inRange_of_ofFirstFile h

end Settings

namespace Command

/-- The command goes by the settings, and nothing is refused before they are read. -/
def ReadsSettings (o : Options) : Command → Prop
  | lint | score | review => True
  | mend => False
  | listChecks => ∃ f, shortFormat o = .ok f

theorem run_of_load_error {time : String} {w : Workspace} {c : Command} {o : Options} {f : Settings.Fault}
    (hc : ReadsSettings o c) (h : Settings.load w o.project o.config = .error f) :
    run time w c o = { tree := w.tree, ending := settingsEnding f } := by
  have hload : loadSettings w o = .error (settingsEnding f) := by rw [loadSettings, h]; rfl
  have hprepare : prepare w o = .error (settingsEnding f) := by rw [prepare, hload]; rfl
  cases c with
  | lint => rw [run, runLint, hprepare]; rfl
  | score => rw [run, runScore, hprepare]; rfl
  | review => rw [run, runReview, hprepare]; rfl
  | mend => exact hc.elim
  | listChecks =>
    obtain ⟨g, hg⟩ := hc
    rw [run, runListChecks, hg, hload]
    rfl

end Command

namespace Settings

/-- **Reading a table.** A table gives settings in range or is refused as a value of the option that names the
file, unless it strays; then the program stops. Which settings it gives is told by its values. -/
theorem table_read_or_refused_iff (source : Path) (t : Toml.Table) :
    (((∃ s, ofTable source t = .ok s ∧ s.InRange) ∨ ∃ f, ofTable source t = .error f ∧ f.IsRefused) ↔
        ∀ f, ¬ Strays t f) ∧
      (∀ s, ofTable source t = .ok s ↔
        (∃ checks lint redundancy, Groups t checks lint redundancy ∧ Gives source t checks lint redundancy s) ∧
          s.InRange) ∧
      (∀ f, Strays t f ↔ ofTable source t = .error f ∧ ¬ f.IsRefused) ∧
      (∀ f, Strays t f →
        (f = .deepText ∧ ∃ v, (get? "format" t = some v ∨ get? "fail_on" t = some v) ∧ textDepth < depth v) ∨
          (f = .tooLarge ∧ ∃ redundancy n, get? "redundancy" t = some (.table redundancy) ∧
            get? "threshold" redundancy = some (.int n) ∧ 2 ^ 1024 - 2 ^ 970 ≤ |n|)) ∧
      ∀ f, ofTable source t = .error f → ∀ (time : String) (w : Workspace) (c : Command) (o : Options),
        c.ReadsSettings o → load w o.project o.config = ofTable source t →
          c.run time w o = { tree := w.tree, ending := Command.settingsEnding f } := by
  refine ⟨⟨?_, ?_⟩, fun s => ofTable_eq_ok_iff, fun f => stops_ofTable_iff.symm, fun f => Strays.cause, ?_⟩
  · rintro (⟨s, hs, -⟩ | ⟨e, he, hrefused⟩) f hf
    · exact not_stops_ok (hs ▸ stops_ofTable_iff.mpr hf)
    · exact not_stops_error hrefused (he ▸ stops_ofTable_iff.mpr hf)
  · intro h
    cases ht : ofTable source t with
    | ok s => exact .inl ⟨s, rfl, inRange_of_ofTable ht⟩
    | error f =>
      refine .inr ⟨f, rfl, ?_⟩
      by_contra hf
      exact h f (stops_ofTable_iff.mp ⟨ht, hf⟩)
  · intro f hf time w c o hc hload
    exact Command.run_of_load_error hc (hload.trans hf)

/-- A threshold with four hundred zeros is an integer above one, and yet is not refused as one. -/
theorem large_threshold_stops_program :
    ofTable ⟨.here, []⟩ [("redundancy".toList, .table [("threshold".toList, .int (10 ^ 400))])] = .error .tooLarge ∧
      ¬ Fault.tooLarge.IsRefused := by
  have hbig : (2 : ℤ) ^ 1024 - 2 ^ 970 ≤ |10 ^ 400| := by decide +kernel
  refine stops_ofTable_iff.mpr (.largeThreshold ⟨.omitted, .omitted, .given rfl⟩ .omitted .omitted .omitted .omitted
    ?_ ?_ inRange_default.limits rfl hbig)
  · exact .omitted
  · exact .omitted

end Settings
end AgentRules
