import AgentRules.Check
import AgentRules.Proofs.Scope

/-!
# The header check and the scope

The check of a header and the scope of a rule read the same fields, each with tests of its own. A rule
applies always unless the check misses the header, cannot read it or misses the field in it, and the check
finds fault with globs that are one text where a pattern of the scope has a comma. Main statement:
`header_check_agrees_with_scope`.
-/

namespace AgentRules

/-! ## What issues are about -/

namespace Issue

/-- The issue says why a rule does not apply always. -/
def deniesAlways (s : Issue) : Bool :=
  s.message = "Missing YAML frontmatter" || "Invalid YAML frontmatter: ".toList.isPrefixOf s.message.toList ||
    s.message = "Missing alwaysApply: true"

def blamesGlobs (s : Issue) : Bool := "Bad glob syntax".toList.isPrefixOf s.message.toList

end Issue

namespace Check

/-- Why a header does not make a rule apply always. -/
def alwaysFault? : Header → Option Issue
  | .absent => some missingHeader
  | .malformed => some (invalidHeader "Invalid YAML indentation")
  | .fields fs => if fs.get? "alwaysApply".toList = some (.flag true) then none else some missingAlways

def descriptionFault? : Header → Option Issue
  | .fields fs => if isFilled (fs.get? "description".toList) then none else some missingDescription
  | _ => none

def globsFault? (h : Header) : Option Issue := if isCommaList (h.get? "globs".toList) then some badGlobs else none

/-- Each test finds one fault at most. -/
theorem headerIssues_eq (i : String) (t : Text) : headerIssues ⟨i, .modern, t⟩ =
    (alwaysFault? (Header.ofText t)).toList ++ (descriptionFault? (Header.ofText t)).toList ++
      (globsFault? (Header.ofText t)).toList := by
  have hheader : (Rule.mk i .modern t).header = Header.ofText t := rfl
  rw [headerIssues, hheader]
  cases Header.ofText t with
  | absent => rfl
  | malformed => rfl
  | fields fs =>
    have hget : (Header.fields fs).get? "globs".toList = fs.get? "globs".toList := rfl
    simp only [alwaysFault?, descriptionFault?, globsFault?, hget]
    congr 1
    · congr 1
      · split_ifs <;> rfl
      · split_ifs <;> rfl
    · split_ifs <;> rfl

theorem alwaysFault?_eq_none_iff {h : Header} : alwaysFault? h = none ↔ h.scope.always = true := by
  cases h with
  | absent => decide
  | malformed => decide
  | fields fs =>
    have hscope : (Header.fields fs).scope.always = decide (fs.get? "alwaysApply".toList = some (.flag true)) := rfl
    rw [hscope, decide_eq_true_eq, alwaysFault?]
    split_ifs with hs
    · exact iff_of_true rfl hs
    · exact iff_of_false nofun hs

theorem alwaysFault?_cases {h : Header} {s : Issue} (hs : alwaysFault? h = some s) :
    s = missingHeader ∨ s = invalidHeader "Invalid YAML indentation" ∨ s = missingAlways := by
  cases h with
  | absent => exact .inl (Option.some.inj hs).symm
  | malformed => exact .inr (.inl (Option.some.inj hs).symm)
  | fields fs =>
    rw [alwaysFault?] at hs
    split_ifs at hs
    exact .inr (.inr (Option.some.inj hs).symm)

theorem descriptionFault?_eq {h : Header} {s : Issue} (hs : descriptionFault? h = some s) : s = missingDescription := by
  cases h with
  | absent => cases hs
  | malformed => cases hs
  | fields fs =>
    rw [descriptionFault?] at hs
    split_ifs at hs
    exact (Option.some.inj hs).symm

theorem globsFault?_eq {h : Header} {s : Issue} (hs : globsFault? h = some s) : s = badGlobs := by
  rw [globsFault?] at hs
  split_ifs at hs
  exact (Option.some.inj hs).symm

theorem filter_toList_of_true {p : Issue → Bool} {o : Option Issue} (h : ∀ s, o = some s → p s = true) :
    o.toList.filter p = o.toList :=
  List.filter_eq_self.mpr fun s hs => h s (Option.mem_toList.mp hs)

theorem filter_toList_of_false {p : Issue → Bool} {o : Option Issue} (h : ∀ s, o = some s → p s = false) :
    o.toList.filter p = [] :=
  List.filter_eq_nil_iff.mpr fun s hs => by rw [h s (Option.mem_toList.mp hs)]; exact Bool.false_ne_true

theorem filter_deniesAlways (i : String) (t : Text) :
    (headerIssues ⟨i, .modern, t⟩).filter Issue.deniesAlways = (alwaysFault? (Header.ofText t)).toList := by
  rw [headerIssues_eq, List.filter_append, List.filter_append, filter_toList_of_true, filter_toList_of_false,
    filter_toList_of_false, List.append_nil, List.append_nil]
  · intro s hs
    rw [globsFault?_eq hs]
    decide
  · intro s hs
    rw [descriptionFault?_eq hs]
    decide
  · intro s hs
    rcases alwaysFault?_cases hs with rfl | rfl | rfl <;> decide

theorem filter_blamesGlobs (i : String) (t : Text) :
    (headerIssues ⟨i, .modern, t⟩).filter Issue.blamesGlobs = (globsFault? (Header.ofText t)).toList := by
  rw [headerIssues_eq, List.filter_append, List.filter_append, filter_toList_of_false, filter_toList_of_false,
    filter_toList_of_true, List.nil_append, List.nil_append]
  · intro s hs
    rw [globsFault?_eq hs]
    decide
  · intro s hs
    rw [descriptionFault?_eq hs]
    decide
  · intro s hs
    rcases alwaysFault?_cases hs with rfl | rfl | rfl <;> decide

/-! ## Globs in one text -/

theorem isCommaList_text_iff (u : Text) :
    isCommaList (some (.text u)) = true ↔ ∃ p ∈ Glob.ofValue (some (.text u)), ',' ∈ p := by
  rw [isCommaList, Glob.ofValue, Bool.and_eq_true, List.contains_iff_mem, ← Text.mem_trim_iff (by decide), bne_iff_ne,
    Text.head?_trimLeft_eq_head?_trim]
  split
  · next ht => simp [ht]
  · -- Between commas no pattern has one.
    next r ht =>
    rw [ht]
    refine iff_of_false (fun h => h.2 rfl) ?_
    rintro ⟨p, hp, hm⟩
    exact Glob.comma_not_mem_clean hp hm
  · next ht hne =>
    have hopen : (Text.trim u).head? ≠ some '[' := by
      intro hs
      obtain ⟨r, hr⟩ := List.head?_eq_some_iff.mp hs
      exact hne r hr
    simp [hopen]

theorem isCommaList_iff {v : Option Header.Value} :
    isCommaList v = true ↔ (∃ u, v = some (.text u)) ∧ ∃ p ∈ Glob.ofValue v, ',' ∈ p := by
  rcases v with _ | ⟨b⟩ | u | us
  · simp [isCommaList]
  · simp [isCommaList]
  · simp [isCommaList_text_iff]
  · simp [isCommaList]

/-! ## Agreement -/

theorem tier_eq_always_iff (i : String) (t : Text) :
    (Rule.mk i .modern t).tier = .always ↔ (Rule.mk i .modern t).scope.always = true := by
  have htier : (Rule.mk i .modern t).tier = if (Rule.mk i .modern t).scope.always then .always
      else if (Rule.mk i .modern t).scope.globs.isEmpty then .manual else .glob := rfl
  rw [htier]
  split_ifs with h
  · exact iff_of_true rfl h
  · exact iff_of_false nofun h
  · exact iff_of_false nofun h

/-- **The header check and the scope.** Of a modern rule the check tells once why the rule does not apply
always, or the rule applies always and the check does not tell. It finds fault with globs, once, if they are
one text in the header and one of the patterns in the scope has a comma. -/
theorem header_check_agrees_with_scope (i : String) (t : Text) :
    ((headerIssues ⟨i, .modern, t⟩).filter Issue.deniesAlways = [] ↔ (Rule.mk i .modern t).scope.always = true) ∧
      ((Rule.mk i .modern t).scope.always = true ↔ (Rule.mk i .modern t).tier = .always) ∧
      ((Rule.mk i .modern t).scope.always = false → ∃ s, (headerIssues ⟨i, .modern, t⟩).filter Issue.deniesAlways = [s] ∧
        (s = missingHeader ∨ s = invalidHeader "Invalid YAML indentation" ∨ s = missingAlways)) ∧
      ((headerIssues ⟨i, .modern, t⟩).filter Issue.blamesGlobs = [] ∨
        (headerIssues ⟨i, .modern, t⟩).filter Issue.blamesGlobs = [badGlobs]) ∧
      ((headerIssues ⟨i, .modern, t⟩).filter Issue.blamesGlobs = [badGlobs] ↔
        (∃ fs u, Header.ofText t = .fields fs ∧ fs.get? "globs".toList = some (.text u)) ∧
          ∃ p ∈ (Rule.mk i .modern t).scope.globs, ',' ∈ p) := by
  have halways : alwaysFault? (Header.ofText t) = none ↔ (Rule.mk i .modern t).scope.always = true :=
    alwaysFault?_eq_none_iff
  have hglobs : (Rule.mk i .modern t).scope.globs = Glob.ofValue ((Header.ofText t).get? "globs".toList) := rfl
  have htext : (∃ fs u, Header.ofText t = .fields fs ∧ fs.get? "globs".toList = some (.text u)) ↔
      ∃ u, (Header.ofText t).get? "globs".toList = some (.text u) := by
    cases Header.ofText t <;> simp [Header.get?, Header.fields?]
  rw [filter_deniesAlways, filter_blamesGlobs, globsFault?, htext, hglobs, ← isCommaList_iff]
  refine ⟨?_, (tier_eq_always_iff i t).symm, ?_, ?_, ?_⟩
  · rw [Option.toList_eq_nil_iff, halways]
  · intro hs
    obtain ⟨s, hf⟩ := Option.ne_none_iff_exists'.mp fun hn => Bool.false_ne_true (hs.symm.trans (halways.mp hn))
    exact ⟨s, by rw [hf]; rfl, alwaysFault?_cases hf⟩
  · split_ifs
    · exact .inr rfl
    · exact .inl rfl
  · split_ifs with h
    · exact iff_of_true rfl h
    · exact iff_of_false nofun h

end Check
end AgentRules
