import Mathlib
import AgentRules.Proofs.Partition.Counts

/-!
# What parts weigh

A group of sections is closed when the next section would take the sum of their weights over the
budget. A part is its sections with a line feed more between any two of them, which no weight counts. So
a part of several sections keeps the budget if and only if those line feeds fit into what the sections
leave free, of the budget and of their last tokens. Main statements: `division_keeps_rows`, by which a
division keeps every row in its order, and `packed_parts_fit_iff`.
-/

namespace AgentRules

open Text (allBlank inkedRows)

namespace Partition

/-! ## Weights -/

/-- The sum of the weights of some sections, each rounded up. -/
def weight (ss : List Text) : Nat := (ss.map tokens).sum

theorem weight_cons (s : Text) (ss : List Text) : weight (s :: ss) = tokens s + weight ss := by
  simp [weight]

theorem weight_append (ss us : List Text) : weight (ss ++ us) = weight ss + weight us := by
  simp [weight]

theorem weight_reverse (ss : List Text) : weight ss.reverse = weight ss := by
  simp [weight, List.sum_reverse]

/-! ## Groups -/

/-- **Groups of sections.** They have the sections in their order. A group of more than one keeps the
budget, and a group ends only where it has no room for the next section. -/
structure Packed (budget : Int) (ss : List Text) (gs : List (List Text)) : Prop where
  flatten : gs.flatten = ss
  ne_nil : ∀ g ∈ gs, g ≠ []
  fits : ∀ g ∈ gs, 2 ≤ g.length → weight g ≤ budget
  full : gs.IsChain fun g h => ∀ s ∈ h.head?, budget < weight g + tokens s

/-- Packing with a group that has begun: it comes first, with what is added to it. -/
theorem packed_from (budget : Int) (ss : List Text) : ∀ group : List Text, group ≠ [] →
    (2 ≤ group.length → weight group ≤ budget) →
    Packed budget (group.reverse ++ ss) (pack budget group (weight group) ss) ∧
      ∀ h ∈ (pack budget group (weight group) ss).head?, group.reverse <+: h := by
  induction ss with
  | nil =>
    intro group hne hfits
    have hpack : pack budget group (weight group) [] = [group.reverse] := by simp [pack, hne]
    rw [hpack]
    refine ⟨⟨by simp, by simpa using hne, ?_, List.isChain_singleton _⟩, by simp⟩
    intro g hg
    rw [List.mem_singleton.mp hg, List.length_reverse, weight_reverse]
    exact hfits
  | cons s ss ih =>
    intro group hne hfits
    have hnonempty : group.isEmpty = false := by simpa using hne
    unfold pack
    simp only [hnonempty, Bool.not_false, Bool.true_and, decide_eq_true_eq]
    split
    · next hover =>
      have hone : weight [s] = tokens s := by simp [weight]
      obtain ⟨hrest, hhead⟩ := ih [s] (by simp) (by simp)
      rw [hone] at hrest hhead
      refine ⟨⟨?_, ?_, ?_, ?_⟩, by simp⟩
      · rw [List.flatten_cons, hrest.flatten]
        simp
      · intro g hg
        rcases List.mem_cons.mp hg with rfl | hg
        · simpa using hne
        · exact hrest.ne_nil g hg
      · intro g hg
        rcases List.mem_cons.mp hg with rfl | hg
        · rw [List.length_reverse, weight_reverse]
          exact hfits
        · exact hrest.fits g hg
      · apply hrest.full.cons
        intro h hh u hu
        obtain ⟨v, rfl⟩ := hhead h hh
        have hus : s = u := by simpa using hu
        rw [weight_reverse, ← hus]
        exact hover
    · next hroom =>
      have hadd : weight group + tokens s = weight (s :: group) := by rw [weight_cons, Nat.add_comm]
      have hle : (weight (s :: group) : Int) ≤ budget := by omega
      rw [hadd]
      obtain ⟨hrest, hhead⟩ := ih (s :: group) (by simp) fun _ => hle
      have hall : (s :: group).reverse ++ ss = group.reverse ++ s :: ss := by simp
      rw [hall] at hrest
      refine ⟨hrest, fun h hh => ?_⟩
      rw [List.reverse_cons] at hhead
      exact (List.prefix_append group.reverse [s]).trans (hhead h hh)

theorem packed_pack (budget : Int) (ss : List Text) : Packed budget ss (pack budget [] 0 ss) := by
  cases ss with
  | nil => exact ⟨rfl, by simp [pack], by simp [pack], by simp [pack]⟩
  | cons s ss =>
    have hone : pack budget [] 0 (s :: ss) = pack budget [s] (weight [s]) ss := by simp [pack, weight]
    rw [hone]
    exact (packed_from budget ss [s] (by simp) (by simp)).1

theorem length_le_flatten {gs : List (List Text)} (hne : ∀ g ∈ gs, g ≠ []) : gs.length ≤ gs.flatten.length := by
  induction gs with
  | nil => simp
  | cons g gs ih =>
    have hg : 0 < g.length := List.length_pos_of_ne_nil (hne g List.mem_cons_self)
    have hgs := ih fun k hk => hne k (List.mem_cons_of_mem g hk)
    rw [List.length_cons, List.flatten_cons, List.length_append]
    omega

section
variable {budget : Int} {ss : List Text} {gs : List (List Text)} (h : Packed budget ss gs)
include h

theorem Packed.consecutive {g : List Text} (hg : g ∈ gs) : g <:+: ss := by
  obtain ⟨as, bs, rfl⟩ := List.append_of_mem hg
  refine ⟨as.flatten, bs.flatten, ?_⟩
  rw [← h.flatten, List.flatten_append, List.flatten_cons, List.append_assoc]

/-- Of two groups or more, each has fewer sections than there are. -/
theorem Packed.length_lt (hgs : 2 ≤ gs.length) {g : List Text} (hg : g ∈ gs) : g.length < ss.length := by
  obtain ⟨as, bs, heq⟩ := List.append_of_mem hg
  have hlen : ss.length = as.flatten.length + (g.length + bs.flatten.length) := by
    rw [← h.flatten, heq, List.flatten_append, List.flatten_cons, List.length_append, List.length_append]
  have has := length_le_flatten fun a (ha : a ∈ as) => h.ne_nil a (by rw [heq]; simp [ha])
  have hbs := length_le_flatten fun b (hb : b ∈ bs) => h.ne_nil b (by rw [heq]; simp [hb])
  rw [heq, List.length_append, List.length_cons] at hgs
  omega

/-- There is more than one group if and only if the sections together are too heavy. -/
theorem Packed.two_le_length_iff (hss : 2 ≤ ss.length) : 2 ≤ gs.length ↔ budget < weight ss := by
  constructor
  · intro hgs
    obtain ⟨g, k, rest, rfl⟩ : ∃ g k rest, gs = g :: k :: rest := by
      cases gs with
      | nil => simp at hgs
      | cons g gs =>
        cases gs with
        | nil => simp at hgs
        | cons k rest => exact ⟨g, k, rest, rfl⟩
    obtain ⟨s, k', rfl⟩ := List.exists_cons_of_ne_nil (h.ne_nil k (by simp))
    have hfull : budget < weight g + tokens s := (List.isChain_cons.mp h.full).1 (s :: k') rfl s rfl
    have hsum : weight ss = weight g + (tokens s + (weight k' + weight rest.flatten)) := by
      rw [← h.flatten, List.flatten_cons, List.flatten_cons, List.cons_append, weight_append, weight_cons,
        weight_append]
    omega
  · intro hover
    by_contra hgs
    cases gs with
    | nil =>
      have hnil := h.flatten
      rw [← hnil] at hss
      simp at hss
    | cons g gs =>
      have hg : gs = [] := by simpa using hgs
      have hflat := h.flatten
      rw [hg, List.flatten_singleton] at hflat
      have hle := h.fits g List.mem_cons_self (by rw [hflat]; exact hss)
      rw [hflat] at hle
      omega

end

/-! ## Bodies -/

theorem inked_of_mem_filter {t : Text} {ts : List Text} (h : t ∈ ts.filter (!allBlank ·)) : allBlank t = false := by
  simpa using (List.mem_filter.mp h).2

/-- Groups that are not empty come to parts that are not blank. -/
theorem filter_map_join {m : Text} {gs : List (List Text)} (hne : ∀ g ∈ gs, g ≠ [])
    (hink : ∀ s ∈ gs.flatten, allBlank s = false) :
    (gs.map (Text.join m)).filter (!allBlank ·) = gs.map (Text.join m) := by
  rw [List.filter_eq_self]
  intro t ht
  obtain ⟨g, hg, rfl⟩ := List.mem_map.mp ht
  obtain ⟨s, g', rfl⟩ := List.exists_cons_of_ne_nil (hne g hg)
  have hs := hink s (List.mem_flatten.mpr ⟨_, hg, List.mem_cons_self⟩)
  simp [Text.allBlank_join List.mem_cons_self hs]

theorem chunks_of_sections (budget : Int) {body : Text} (h : 2 ≤ (sections body).length) :
    chunks budget body = (pack budget [] 0 (sections body)).map (Text.join ['\n']) := by
  have hpacked := packed_pack budget (sections body)
  unfold chunks
  simp only
  rw [if_neg (by omega), filter_map_join hpacked.ne_nil]
  intro s hs
  rw [hpacked.flatten] at hs
  exact inked_of_mem_filter hs

theorem chunks_of_paragraphs (budget : Int) {body : Text} (h : (sections body).length ≤ 1) :
    chunks budget body = ((halves (paragraphs body)).map (Text.join gap)).filter (!allBlank ·) := by
  unfold chunks
  simp only
  rw [if_pos h]
  rfl

theorem chunks_of_two_paragraphs (budget : Int) {body : Text} (h : (sections body).length ≤ 1)
    (hp : 2 ≤ (paragraphs body).length) : chunks budget body = (halves (paragraphs body)).map (Text.join gap) := by
  rw [chunks_of_paragraphs budget h]
  apply filter_map_join
  · intro g hg
    apply List.ne_nil_of_length_pos
    simp only [halves, List.mem_cons, List.not_mem_nil, or_false] at hg
    rcases hg with rfl | rfl
    · rw [List.length_take]
      omega
    · rw [List.length_drop]
      omega
  · rw [flatten_halves]
    exact fun s hs => inked_of_mem_filter hs

/-- A body that comes to two parts: its sections are too heavy together, or it has paragraphs to halve. -/
def Divisible (budget : Int) (body : Text) : Prop :=
  if (sections body).length ≤ 1 then 2 ≤ (paragraphs body).length else budget < weight (sections body)

theorem two_le_length_chunks_iff (budget : Int) (body : Text) :
    2 ≤ (chunks budget body).length ↔ Divisible budget body := by
  unfold Divisible
  split
  · next hs =>
    constructor
    · intro h
      by_contra hp
      -- The second half of at most one paragraph is empty.
      have hdrop : (paragraphs body).drop (((paragraphs body).length + 1) / 2) = [] := by
        rw [List.drop_eq_nil_iff]
        omega
      have hnil : (!allBlank (Text.join gap [])) = false := rfl
      rw [chunks_of_paragraphs budget hs, halves, hdrop, List.map_cons, List.map_singleton, List.filter_cons,
        List.filter_cons_of_neg (by rw [hnil]; simp), List.filter_nil] at h
      split at h
      · simp at h
      · simp at h
    · intro hp
      rw [chunks_of_two_paragraphs budget hs hp, List.length_map]
      exact le_refl 2
  · next hs =>
    rw [chunks_of_sections budget (by omega), List.length_map]
    exact (packed_pack budget (sections body)).two_le_length_iff (by omega)

/-! ## Rows -/

/-- **Dividing is lossless.** A document is divided if and only if it is too heavy and comes to two parts
at least. The parts are numbered from one, none of them is blank, and one after the other they have the
rows of the body. -/
theorem division_keeps_rows (budget : Int) (t : Text) :
    ((partition? budget t).isSome = true ↔ budget < tokens t ∧ Divisible budget (Header.body t)) ∧
    ∀ ps, partition? budget t = some ps →
      2 ≤ ps.length ∧ ps.map Part.suffix = (List.range' 1 ps.length).map (fun n => s!"-part{n}") ∧
      (∀ p ∈ ps, allBlank p.body = false) ∧
      ps.flatMap (fun p => inkedRows p.body) = inkedRows (Header.body t) := by
  constructor
  · rw [← two_le_length_chunks_iff, Option.isSome_iff_exists]
    constructor
    · rintro ⟨ps, hps⟩
      exact ⟨(partition?_eq_some_iff.mp hps).1, (partition?_eq_some_iff.mp hps).2.1⟩
    · intro h
      exact ⟨_, partition?_eq_some_iff.mpr ⟨h.1, h.2, rfl⟩⟩
  · intro ps hps
    obtain ⟨-, hlen, hnumber⟩ := partition?_eq_some_iff.mp hps
    have hbody := map_body_of_partition? hps
    have hlength : ps.length = (chunks budget (Header.body t)).length := by rw [← hbody, List.length_map]
    refine ⟨by rw [hlength]; exact hlen, ?_, fun p hp => ?_, ?_⟩
    · have hsuffix : ps.map Part.suffix = (ps.map (·.number)).map (fun n => s!"-part{n}") := by
        rw [List.map_map]
        rfl
      rw [hsuffix, hlength, hnumber, map_number_number]
    · have hmem : p.body ∈ chunks budget (Header.body t) := by
        rw [← hbody]
        exact List.mem_map_of_mem hp
      exact inked_of_mem_filter hmem
    · have hflat : ps.flatMap (fun p => inkedRows p.body) = (ps.map (·.body)).flatMap inkedRows := by
        rw [List.flatMap_map]
      rw [hflat, hbody, inkedRows_chunks]

/-- Sections with a blank row between them, and what stands before them. -/
theorem spaced_sections_keep_rows :
    partition? 4 "---\na: b\n---\nintro\n## a\n\n## b\nb".toList =
      some [⟨1, "intro\n\n## a\n\n".toList⟩, ⟨2, "## b\nb".toList⟩] ∧
    inkedRows "intro\n\n## a\n\n".toList ++ inkedRows "## b\nb".toList =
      inkedRows (Header.body "---\na: b\n---\nintro\n## a\n\n## b\nb".toList) := by
  have hps : partition? 4 "---\na: b\n---\nintro\n## a\n\n## b\nb".toList =
      some [⟨1, "intro\n\n## a\n\n".toList⟩, ⟨2, "## b\nb".toList⟩] := by decide
  obtain ⟨-, -, -, hrows⟩ := (division_keeps_rows 4 _).2 _ hps
  refine ⟨hps, ?_⟩
  rw [← hrows]
  simp

/-! ## Budgets -/

/-- The characters that the last tokens of some texts leave free. -/
def spare (ss : List Text) : Nat := (ss.map fun s => 4 * tokens s - s.length).sum

theorem length_add_spare (ss : List Text) : (ss.map List.length).sum + spare ss = 4 * weight ss := by
  induction ss with
  | nil => rfl
  | cons s ss ih =>
    have hs : s.length ≤ 4 * tokens s := by
      unfold tokens
      omega
    have hspare : spare (s :: ss) = (4 * tokens s - s.length) + spare ss := by simp [spare]
    rw [List.map_cons, List.sum_cons, hspare, weight_cons]
    omega

theorem length_join_newline : ∀ {ss : List Text}, ss ≠ [] →
    (Text.join ['\n'] ss).length + 1 = (ss.map List.length).sum + ss.length
  | [], h => absurd rfl h
  | [s], _ => by simp [Text.join]
  | s :: u :: ss, _ => by
    have ih := length_join_newline (List.cons_ne_nil u ss)
    rw [Text.join_cons _ (by simp), List.map_cons, List.sum_cons, List.length_cons, List.length_append,
      List.length_append, List.length_singleton]
    omega

/-- **A part and its sections.** If there is more than one, the part may be over the budget, but by no
more than the line feeds between them weigh. It keeps the budget if and only if they find room. -/
structure Filled (budget : Int) (g : List Text) (p : Part) : Prop where
  body : p.body = Text.join ['\n'] g
  recount : (sections p.body).length = g.length
  excess : 2 ≤ g.length → tokens p.body ≤ budget + (g.length + 2) / 4
  fits_iff : 2 ≤ g.length →
    (tokens p.body ≤ budget ↔ (g.length : Int) - 1 ≤ 4 * (budget - weight g) + spare g)

theorem filled_of_packed {budget : Int} {body : Text} {gs : List (List Text)} (h : Packed budget (sections body) gs)
    {g : List Text} (hg : g ∈ gs) {p : Part} (hp : p.body = Text.join ['\n'] g) : Filled budget g p := by
  have hlength := length_join_newline (h.ne_nil g hg)
  have hspare := length_add_spare g
  refine ⟨hp, ?_, fun htwo => ?_, fun _ => ?_⟩
  · rw [hp, length_sections_join ((inSections_sections body).within (h.consecutive hg))]
  · have hfits := h.fits g hg htwo
    rw [hp]
    unfold tokens
    omega
  · rw [hp]
    unfold tokens
    omega

theorem forall₂_of_map_eq {gs : List (List Text)} {ps : List Part} {R : List Text → Part → Prop} {m : Text}
    (h : ps.map (·.body) = gs.map (Text.join m)) (hR : ∀ g ∈ gs, ∀ p : Part, p.body = Text.join m g → R g p) :
    List.Forall₂ R gs ps := by
  induction gs generalizing ps with
  | nil =>
    rw [List.map_nil, List.map_eq_nil_iff] at h
    rw [h]
    exact .nil
  | cons g gs ih =>
    obtain ⟨p, ps, rfl, hp, hps⟩ := List.map_eq_cons_iff.mp h
    exact .cons (hR g List.mem_cons_self p hp) (ih hps fun k hk => hR k (List.mem_cons_of_mem g hk))

/-- **Packed parts.** The sections of a body that has several go into its parts in groups. A group is as
large as the weights of its sections let it be, so a part with more than one of them is over the budget
if and only if there is no room for the line feeds between them. -/
theorem packed_parts_fit_iff {budget : Int} {t : Text} {ps : List Part} (h : partition? budget t = some ps)
    (hs : 2 ≤ (sections (Header.body t)).length) :
    ∃ gs, Packed budget (sections (Header.body t)) gs ∧ List.Forall₂ (Filled budget) gs ps := by
  have hpacked := packed_pack budget (sections (Header.body t))
  refine ⟨_, hpacked, ?_⟩
  have hbody := map_body_of_partition? h
  rw [chunks_of_sections budget hs] at hbody
  exact forall₂_of_map_eq hbody fun g hg p hp => filled_of_packed hpacked hg hp

/-- Sections that leave room in their last tokens. -/
theorem roomy_sections_fit :
    partition? 4 "intro\n## a\n\n## b\nb".toList =
      some [⟨1, "intro\n\n## a\n\n".toList⟩, ⟨2, "## b\nb".toList⟩] ∧
    2 ≤ (sections (Header.body "intro\n## a\n\n## b\nb".toList)).length ∧
    ∃ gs, Packed 4 (sections (Header.body "intro\n## a\n\n## b\nb".toList)) gs ∧
      List.Forall₂ (Filled 4) gs [⟨1, "intro\n\n## a\n\n".toList⟩, ⟨2, "## b\nb".toList⟩] :=
  ⟨by decide, by decide, packed_parts_fit_iff (by decide) (by decide)⟩

/-- Two sections whose last tokens are full, and whose weights come to the budget. -/
theorem full_sections_exceed_budget :
    partition? 4 "## abcd\n## abcd\n## efgh\n".toList =
      some [⟨1, "## abcd\n\n## abcd\n".toList⟩, ⟨2, "## efgh\n".toList⟩] ∧
    (sections "## abcd\n\n## abcd\n".toList).length = 2 ∧ 4 < tokens "## abcd\n\n## abcd\n".toList := by
  refine ⟨?_, ?_, ?_⟩
  · decide
  · decide
  · decide

end Partition
end AgentRules
