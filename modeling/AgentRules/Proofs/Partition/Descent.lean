import Mathlib
import AgentRules.Proofs.Header.Repair
import AgentRules.Proofs.Partition.Packing

/-!
# Dividing again and again

A part has fewer sections than the body it comes from, or as many and fewer paragraphs. Packing may put
more paragraphs into a part than the body had, since it adds line feeds, and a half may have as many
sections as the whole, so neither number goes down alone. Main statement: `division_descends`, by which documents
cannot be divided without end, whatever the budgets are and whatever headers the parts are given.
-/

namespace AgentRules.Partition

open Text (inkedRows)

/-! ## Parts -/

/-- The numbers of sections and of paragraphs, the sections first. -/
def rank (body : Text) : Nat ×ₗ Nat := toLex ((sections body).length, (paragraphs body).length)

theorem rank_lt_of_sections {a b : Text} (h : (sections a).length < (sections b).length) : rank a < rank b := by
  unfold rank
  rw [Prod.Lex.toLex_lt_toLex]
  exact Or.inl h

theorem rank_lt_of_paragraphs {a b : Text} (hs : (sections a).length ≤ (sections b).length)
    (hp : (paragraphs a).length < (paragraphs b).length) : rank a < rank b := by
  rcases Nat.lt_or_eq_of_le hs with hs | hs
  · exact rank_lt_of_sections hs
  · unfold rank
    rw [Prod.Lex.toLex_lt_toLex]
    exact Or.inr ⟨hs, hp⟩

/-- A part that is packed has fewer sections. -/
theorem rank_lt_of_packed {budget : Int} {body : Text} {gs : List (List Text)} (h : Packed budget (sections body) gs)
    (hgs : 2 ≤ gs.length) {g : List Text} (hg : g ∈ gs) : rank (Text.join ['\n'] g) < rank body := by
  apply rank_lt_of_sections
  rw [length_sections_join ((inSections_sections body).within (h.consecutive hg))]
  exact h.length_lt hgs hg

/-- Some of the paragraphs of a body, one after another, have no more sections. -/
theorem length_sections_join_gap_le {as bs cs : List Text} {body : Text} (h : as ++ bs ++ cs = paragraphs body) :
    (sections (Text.join gap bs)).length ≤ (sections body).length := by
  have hrows : inkedRows body = as.flatMap inkedRows ++ bs.flatMap inkedRows ++ cs.flatMap inkedRows := by
    rw [← inkedRows_paragraphs, ← h, List.flatMap_append, List.flatMap_append]
  rw [length_sections, length_sections, hrows, gap, Text.inkedRows_join_gap]
  exact (sectionCount_append_right _ _).trans (sectionCount_append_left _ _)

theorem rank_lt_of_paragraphs_join {as bs cs : List Text} {body : Text} (h : as ++ bs ++ cs = paragraphs body)
    (hlt : bs.length < (paragraphs body).length) : rank (Text.join gap bs) < rank body := by
  apply rank_lt_of_paragraphs (length_sections_join_gap_le h)
  rw [length_paragraphs_join]
  · exact hlt
  · intro p hp
    have hmem : p ∈ paragraphs body := by
      rw [← h]
      simp [hp]
    exact length_paragraphs_of_mem hmem

/-- Halves of two paragraphs or more have fewer of them. -/
theorem rank_lt_of_halved {body : Text} (h : 2 ≤ (paragraphs body).length) {g : List Text}
    (hg : g ∈ halves (paragraphs body)) : rank (Text.join gap g) < rank body := by
  have hcut := List.take_append_drop (((paragraphs body).length + 1) / 2) (paragraphs body)
  simp only [halves, List.mem_cons, List.not_mem_nil, or_false] at hg
  rcases hg with rfl | rfl
  · have hfront : [] ++ (paragraphs body).take (((paragraphs body).length + 1) / 2) ++
        (paragraphs body).drop (((paragraphs body).length + 1) / 2) = paragraphs body := by
      rw [List.nil_append, hcut]
    apply rank_lt_of_paragraphs_join hfront
    rw [List.length_take]
    omega
  · have hback : (paragraphs body).take (((paragraphs body).length + 1) / 2) ++
        (paragraphs body).drop (((paragraphs body).length + 1) / 2) ++ [] = paragraphs body := by
      rw [List.append_nil, hcut]
    apply rank_lt_of_paragraphs_join hback
    rw [List.length_drop]
    omega

theorem rank_lt_of_mem_chunks {budget : Int} {body c : Text} (hlen : 2 ≤ (chunks budget body).length)
    (hc : c ∈ chunks budget body) : rank c < rank body := by
  by_cases hs : (sections body).length ≤ 1
  · have hdiv := (two_le_length_chunks_iff budget body).mp hlen
    unfold Divisible at hdiv
    rw [if_pos hs] at hdiv
    rw [chunks_of_two_paragraphs budget hs hdiv] at hc
    obtain ⟨g, hg, rfl⟩ := List.mem_map.mp hc
    exact rank_lt_of_halved hdiv hg
  · rw [chunks_of_sections budget (by omega)] at hlen hc
    rw [List.length_map] at hlen
    obtain ⟨g, hg, rfl⟩ := List.mem_map.mp hc
    exact rank_lt_of_packed (packed_pack budget (sections body)) hlen hg

theorem rank_lt_of_part {budget : Int} {t : Text} {ps : List Part} (h : partition? budget t = some ps) {p : Part}
    (hp : p ∈ ps) : rank p.body < rank (Header.body t) := by
  apply rank_lt_of_mem_chunks (partition?_eq_some_iff.mp h).2.1
  rw [← map_body_of_partition? h]
  exact List.mem_map_of_mem hp

/-! ## Collections of documents -/

/-- **One division.** One of some documents goes, and for each of its parts a document comes whose body
is the part. -/
inductive Divides : Multiset Text → Multiset Text → Prop
  | intro {budget : Int} {t : Text} {ps : List Part} {ds : List Text} (rest : Multiset Text)
      (parts : partition? budget t = some ps) (bodies : ds.map Header.body = ps.map (·.body)) :
      Divides (t ::ₘ rest) (ds + rest)

def ranks (ts : Multiset Text) : Multiset (Nat ×ₗ Nat) := ts.map fun t => rank (Header.body t)

/-- A division takes one rank out and puts in only lower ones. -/
theorem cutExpand_of_divides {s s' : Multiset Text} (h : Divides s s') :
    Relation.CutExpand (· < ·) (ranks s') (ranks s) := by
  cases h with
  | @intro budget t ps ds rest hparts hbodies =>
    refine ⟨ranks ds, rank (Header.body t), fun r hr => ?_, ?_⟩
    · have hmem : r ∈ (ps.map (·.body)).map rank := by
        rw [← hbodies, List.map_map]
        simpa [ranks] using hr
      rw [List.map_map] at hmem
      obtain ⟨p, hp, rfl⟩ := List.mem_map.mp hmem
      exact rank_lt_of_part hparts hp
    · unfold ranks
      rw [Multiset.map_add, Multiset.map_cons, ← Multiset.singleton_add]
      abel

theorem wellFounded_divides : WellFounded fun s' s => Divides s s' := by
  have hlt : WellFounded fun a b : Nat ×ₗ Nat => a < b := wellFounded_lt
  exact Subrelation.wf (fun h => cutExpand_of_divides h) (InvImage.wf ranks hlt.cutExpand)

/-- A division can be made as long as there is a document to divide; the minimal header will do. -/
theorem exists_divides_iff {s : Multiset Text} :
    (∃ s', Divides s s') ↔ ∃ t ∈ s, ∃ budget, (partition? budget t).isSome = true := by
  constructor
  · rintro ⟨s', h⟩
    cases h with
    | @intro budget t ps ds rest hparts hbodies => exact ⟨t, Multiset.mem_cons_self t rest, budget, by rw [hparts]; rfl⟩
  · rintro ⟨t, ht, budget, h⟩
    obtain ⟨ps, hps⟩ := Option.isSome_iff_exists.mp h
    obtain ⟨rest, rfl⟩ := Multiset.exists_cons_of_mem ht
    have hbodies : (ps.map fun p => Header.minimal ++ p.body).map Header.body = ps.map (·.body) := by
      rw [List.map_map]
      exact List.map_congr_left fun p _ => Header.body_minimal p.body
    exact ⟨_, Divides.intro rest hps hbodies⟩

/-- **Dividing ends.** A part ranks below the body it comes from, so there is no endless run of
divisions. A run ends where no document can be divided, whatever the budget. -/
theorem division_descends :
    (∀ (budget : Int) (t : Text) (ps : List Part), partition? budget t = some ps →
      ∀ p ∈ ps, rank p.body < rank (Header.body t)) ∧
    (WellFounded fun s' s : Multiset Text => Divides s s') ∧
    ∀ s : Multiset Text, (∃ s', Divides s s') ↔ ∃ t ∈ s, ∃ budget, (partition? budget t).isSome = true :=
  ⟨fun _ _ _ h _ hp => rank_lt_of_part h hp, wellFounded_divides, fun _ => exists_divides_iff⟩

/-- A body of one paragraph, which packing turns into a part of two. -/
theorem joined_sections_descend :
    partition? 4 "## a\nx\n## b\ny\n## c".toList =
      some [⟨1, "## a\nx\n\n## b\ny\n".toList⟩, ⟨2, "## c".toList⟩] ∧
    (paragraphs (Header.body "## a\nx\n## b\ny\n## c".toList)).length = 1 ∧
    (paragraphs "## a\nx\n\n## b\ny\n".toList).length = 2 ∧
    rank "## a\nx\n\n## b\ny\n".toList < rank (Header.body "## a\nx\n## b\ny\n## c".toList) := by
  have hps : partition? 4 "## a\nx\n## b\ny\n## c".toList =
      some [⟨1, "## a\nx\n\n## b\ny\n".toList⟩, ⟨2, "## c".toList⟩] := by decide
  refine ⟨hps, by decide, by decide, ?_⟩
  exact division_descends.1 4 _ _ hps ⟨1, "## a\nx\n\n## b\ny\n".toList⟩ List.mem_cons_self

end AgentRules.Partition
