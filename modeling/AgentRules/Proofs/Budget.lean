import AgentRules.Proofs.Mending.Outcome
import AgentRules.Proofs.Report

/-!
# Breaking down a budget

A budget lists every rule once, the heaviest first and equal ones in their order, and its totals are those
of the rules. One rule more puts one entry in its place and adds to one of the two totals; from this the
order and the totals follow for all rules, and that adding up rule by rule comes to the same totals. Main
statements: `ofRules_eq_account` and `ofRules_breaks_down`.
-/

namespace AgentRules

/-- The tokens are a quarter of the characters, rounded up. -/
theorem tokens_eq_ceil (t : Text) : tokens t = ⌈(t.length : ℚ) / 4⌉₊ := by
  apply eq_of_forall_ge_iff
  intro n
  have hscaled : (t.length : ℚ) / 4 ≤ n ↔ t.length ≤ n * 4 := by
    rw [div_le_iff₀ (by norm_num)]
    exact_mod_cast Iff.rfl
  rw [Nat.ceil_le, hscaled, tokens]
  omega

namespace Budget

/-- What a budget lists of a rule. -/
def listed (r : Rule) : Entry := ⟨r.identifier, ⌈(r.text.length : ℚ) / 4⌉₊, r.tier⟩

/-! ## The order of entries -/

def Entry.outweighs (a b : Entry) : Bool := b.tokens ≤ a.tokens

namespace Entry

theorem outweighs_iff {a b : Entry} : a.outweighs b = true ↔ b.tokens ≤ a.tokens := decide_eq_true_iff

theorem outweighs_trans (a b c : Entry) (hab : a.outweighs b = true) (hbc : b.outweighs c = true) :
    a.outweighs c = true := by
  rw [outweighs_iff] at *
  exact hbc.trans hab

theorem outweighs_total (a b : Entry) : (a.outweighs b || b.outweighs a) = true := by
  rw [Bool.or_eq_true, outweighs_iff, outweighs_iff]
  exact Nat.le_total _ _

end Entry

theorem ofRule_eq_listed (r : Rule) : Entry.ofRule r = listed r := by
  rw [Entry.ofRule, listed, tokens_eq_ceil]

theorem entries_eq (rs : List Rule) : (ofRules rs).entries = (rs.map listed).mergeSort Entry.outweighs := by
  rw [← funext ofRule_eq_listed]; rfl

theorem entries_nil : (ofRules []).entries = [] := by
  rw [entries_eq]
  exact List.mergeSort_nil

theorem perm_entries (rs : List Rule) : (ofRules rs).entries.Perm (rs.map listed) := by
  rw [entries_eq]
  exact List.mergeSort_perm _ _

theorem pairwise_entries (rs : List Rule) : (ofRules rs).entries.Pairwise fun a b => b.tokens ≤ a.tokens := by
  rw [entries_eq]
  exact (List.pairwise_mergeSort Entry.outweighs_trans Entry.outweighs_total _).imp Entry.outweighs_iff.mp

/-- One rule more, before the others: its entry stands right after the heavier ones. -/
theorem exists_cut_entries (r : Rule) (rs : List Rule) : ∃ before after, (ofRules rs).entries = before ++ after ∧
    (ofRules (r :: rs)).entries = before ++ listed r :: after ∧ ∀ e ∈ before, (listed r).tokens < e.tokens := by
  obtain ⟨before, after, hcons, hrs, hbefore⟩ :=
    List.mergeSort_cons Entry.outweighs_trans Entry.outweighs_total (listed r) (rs.map listed)
  rw [entries_eq, entries_eq]
  refine ⟨before, after, hrs, hcons, fun e he => ?_⟩
  have hlighter := hbefore e he
  rwa [Bool.not_eq_true', ← Bool.not_eq_true, Entry.outweighs_iff, not_le] at hlighter

theorem filter_tokens_entries (n : ℕ) (rs : List Rule) :
    (ofRules rs).entries.filter (·.tokens = n) = (rs.map listed).filter (·.tokens = n) := by
  induction rs with
  | nil => rw [entries_nil]; rfl
  | cons r rs ih =>
    obtain ⟨before, after, hrs, hcons, hbefore⟩ := exists_cut_entries r rs
    rw [hrs, List.filter_append] at ih
    rw [hcons, List.filter_append, List.map_cons, List.filter_cons, List.filter_cons, ← ih]
    by_cases hn : (listed r).tokens = n
    · -- No entry of this weight stands before the new one.
      have hnone : before.filter (·.tokens = n) = [] := by
        rw [List.filter_eq_nil_iff]
        intro e he
        have hheavier := hbefore e he
        rw [decide_eq_true_eq]
        omega
      rw [hnone, List.nil_append, List.nil_append]
    · simp only [hn, decide_false, Bool.false_eq_true, if_false]

/-! ## Totals -/

theorem sum_eq (es : List Entry) : sum es = (es.map (·.tokens)).sum := by
  rw [List.sum, List.foldr_map]; rfl

/-- A rule adds its tokens to the totals that count entries like its own, and to no other. -/
theorem sum_filter_cons (f : Entry → Bool) (r : Rule) (rs : List Rule) : sum ((ofRules (r :: rs)).entries.filter f) =
    (if f (listed r) then (listed r).tokens else 0) + sum ((ofRules rs).entries.filter f) := by
  obtain ⟨before, after, hrs, hcons, -⟩ := exists_cut_entries r rs
  rw [hrs, hcons, sum_eq, sum_eq, List.filter_append, List.filter_append, List.filter_cons]
  split_ifs <;> simp [Nat.add_left_comm]

theorem sum_filter_entries (f : Entry → Bool) (rs : List Rule) :
    sum ((ofRules rs).entries.filter f) = (((rs.map listed).filter f).map (·.tokens)).sum := by
  induction rs with
  | nil => rw [entries_nil]; rfl
  | cons r rs ih =>
    rw [sum_filter_cons, ih, List.map_cons, List.filter_cons]
    split_ifs <;> simp

theorem total_eq (rs : List Rule) : (ofRules rs).total = ((rs.map listed).map (·.tokens)).sum := by
  have hrest : (fun e : Entry => decide (e.tier ≠ .always)) = fun e => !decide (e.tier = .always) := by
    funext e
    exact decide_not
  rw [total, always, conditional, sum_filter_entries, sum_filter_entries, ← List.sum_append, ← List.map_append, hrest]
  exact ((List.filter_append_perm _ _).map _).sum_eq

theorem foldr_tokens_eq_total (rs : List Rule) : rs.foldr (fun r n => tokens r.text + n) 0 = (ofRules rs).total := by
  rw [total_eq, List.map_map, List.sum, List.foldr_map]
  simp only [Function.comp, listed, tokens_eq_ceil]

/-! ## Rule by rule -/

/-- The entries and totals of the rules up to some point. -/
structure Account where
  entries : List Entry := []
  always : ℕ := 0
  conditional : ℕ := 0

def Account.add (a : Account) (r : Rule) : Account :=
  let e := Entry.ofRule r
  if e.tier = .always then ⟨a.entries ++ [e], a.always + e.tokens, a.conditional⟩
  else ⟨a.entries ++ [e], a.always, a.conditional + e.tokens⟩

theorem Account.add_eq (a : Account) (r : Rule) : a.add r = ⟨a.entries ++ [listed r],
    a.always + (if (listed r).tier = .always then (listed r).tokens else 0),
    a.conditional + (if (listed r).tier ≠ .always then (listed r).tokens else 0)⟩ := by
  rw [Account.add, ofRule_eq_listed]
  by_cases h : (listed r).tier = .always
  · simp [h]
  · simp [h]

theorem Account.foldl_add (rs : List Rule) : ∀ a : Account, rs.foldl Account.add a =
    ⟨a.entries ++ rs.map listed, a.always + (ofRules rs).always, a.conditional + (ofRules rs).conditional⟩ := by
  induction rs with
  | nil => intro a; simp [Budget.always, Budget.conditional, entries_nil, sum]
  | cons r rs ih =>
    intro a
    have halways : (ofRules (r :: rs)).always =
        (if (listed r).tier = .always then (listed r).tokens else 0) + (ofRules rs).always := by
      simpa only [Budget.always, decide_eq_true_eq] using sum_filter_cons (·.tier = .always) r rs
    have hconditional : (ofRules (r :: rs)).conditional =
        (if (listed r).tier ≠ .always then (listed r).tokens else 0) + (ofRules rs).conditional := by
      simpa only [Budget.conditional, decide_eq_true_eq] using sum_filter_cons (·.tier ≠ .always) r rs
    rw [List.foldl_cons, ih, add_eq, halways, hconditional, List.map_cons]
    simp only [List.append_assoc, List.singleton_append, Nat.add_assoc]

/-- The totals of a budget are what adding up rule by rule comes to, and its entries are the ones noted
on the way, put in order. -/
theorem ofRules_eq_account (rs : List Rule) :
    (ofRules rs).entries = (rs.foldl Account.add {}).entries.mergeSort Entry.outweighs ∧
      (ofRules rs).always = (rs.foldl Account.add {}).always ∧
      (ofRules rs).conditional = (rs.foldl Account.add {}).conditional := by
  rw [Account.foldl_add, Nat.zero_add, Nat.zero_add]
  exact ⟨entries_eq rs, rfl, rfl⟩

/-! ## The whole budget -/

/-- What a budget says of some rules. -/
structure BreaksDown (rs : List Rule) (b : Budget) : Prop where
  perm : b.entries.Perm (rs.map listed)
  heaviest : b.entries.Pairwise fun x y => y.tokens ≤ x.tokens
  stable : ∀ n, b.entries.filter (·.tokens = n) = (rs.map listed).filter (·.tokens = n)
  always : b.always = (((rs.map listed).filter (·.tier = .always)).map (·.tokens)).sum
  legacy : ∀ r ∈ rs, r.kind = .legacy → listed r ∈ (rs.map listed).filter (·.tier = .always)
  conditional : b.conditional = (((rs.map listed).filter (·.tier ≠ .always)).map (·.tokens)).sum
  total : b.total = ((rs.map listed).map (·.tokens)).sum

theorem mem_always_of_legacy {rs : List Rule} {r : Rule} (hr : r ∈ rs) (h : r.kind = .legacy) :
    listed r ∈ (rs.map listed).filter (·.tier = .always) := by
  refine List.mem_filter.mpr ⟨List.mem_map_of_mem hr, ?_⟩
  simp [listed, Rule.tier, h]

/-- **Breaking down.** Every rule is listed once, the heaviest first and equal ones in their order. What is
always loaded and the rest are the sums over the entries of that tier and over the others. The total is the
sum over all rules, by which a report on them goes, and no total hangs on the order of the rules. -/
theorem ofRules_breaks_down (rs : List Rule) :
    BreaksDown rs (ofRules rs) ∧
      (∀ (settings : Settings) (cs : List Check) (gaps : List Gap) (t : Tree) (p : Project),
        settings.selection.checks = .ok cs → Survey.readableRules t p = rs →
          ∃ q, Report.ofProject settings gaps t p = .ok q ∧
            q.measures.filter (·.name = "Token budget") = [Report.weight (ofRules rs).total]) ∧
      ∀ qs, rs.Perm qs → (ofRules qs).always = (ofRules rs).always ∧
        (ofRules qs).conditional = (ofRules rs).conditional ∧ (ofRules qs).total = (ofRules rs).total := by
  refine ⟨⟨perm_entries rs, pairwise_entries rs, fun n => filter_tokens_entries n rs, sum_filter_entries _ rs,
    fun _ => mem_always_of_legacy, sum_filter_entries _ rs, total_eq rs⟩, ?_, ?_⟩
  · rintro settings cs gaps t p hcs rfl
    obtain ⟨q, hq, hmeasures⟩ := Report.exists_ofProject hcs gaps t p
    refine ⟨q, hq, ?_⟩
    rw [hmeasures, Report.filter_name_measurements, ← foldr_tokens_eq_total]; rfl
  · intro qs h
    have hperm : (rs.map listed).Perm (qs.map listed) := h.map listed
    have hsums : ∀ f : Entry → Bool, sum ((ofRules qs).entries.filter f) = sum ((ofRules rs).entries.filter f) := by
      intro f
      rw [sum_filter_entries, sum_filter_entries]
      exact ((hperm.filter f).map _).sum_eq.symm
    refine ⟨hsums _, hsums _, ?_⟩
    rw [total_eq, total_eq]
    exact (hperm.map _).sum_eq.symm

/-- A legacy file and two documents, of which one is as heavy as it. -/
def terse : Tree :=
  ((Tree.empty.plant [".cursorrules"] (.file (Utf8.encode "be brief".toList))).plant
    [".cursor", "rules", "x.mdc"] (.file (Utf8.encode "be short".toList))).plant
      [".cursor", "rules", "y.mdc"] (.file (Utf8.encode "write little".toList))

def terseRules : List Rule :=
  [⟨".cursorrules", .legacy, "be brief".toList⟩, ⟨".cursor/rules/x.mdc", .modern, "be short".toList⟩,
    ⟨".cursor/rules/y.mdc", .modern, "write little".toList⟩]

theorem documents_terse : Mending.here.documents terse = Mending.here.document [] .legacy [".cursorrules"] ::
    ["x.mdc", "y.mdc"].map (Mending.here.ruleDocument Project.rulesNames) := by
  cbv

theorem readableRules_terse : Survey.readableRules terse Mending.here = terseRules := by
  rw [Survey.readableRules, documents_terse]
  decide +kernel

theorem checks_default : ({} : Selection).checks = .ok Check.all := by
  cbv

/-- Two of three rules are equally heavy, and only the legacy file is always loaded. -/
theorem terse_rules_break_down :
    (ofRules terseRules).entries.filter (·.tokens = 2) =
      [⟨".cursorrules", 2, .always⟩, ⟨".cursor/rules/x.mdc", 2, .manual⟩] ∧
    (ofRules terseRules).total = 7 ∧ (ofRules terseRules.reverse).always = 2 ∧
    ∃ q, Report.ofProject {} [] terse Mending.here = .ok q ∧
      q.measures.filter (·.name = "Token budget") = [Report.weight 7] := by
  obtain ⟨hbudget, hreport, hperm⟩ := ofRules_breaks_down terseRules
  have htotal : (ofRules terseRules).total = 7 := by
    rw [hbudget.total]
    decide +kernel
  have halways : (ofRules terseRules).always = 2 := by
    rw [hbudget.always]
    decide +kernel
  refine ⟨?_, htotal, ?_, ?_⟩
  · rw [hbudget.stable]
    decide +kernel
  · rw [(hperm _ (List.reverse_perm _).symm).1, halways]
  · rw [← htotal]
    exact hreport {} Check.all [] terse Mending.here checks_default readableRules_terse

end Budget
end AgentRules
