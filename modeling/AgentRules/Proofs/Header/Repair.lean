import Mathlib
import AgentRules.Header.Repair
import AgentRules.Proofs.Header.Grammar
import AgentRules.Proofs.Text.Trim

/-!
# What repair leaves alone

Repair rewrites the block of a header and nothing else. No line of the block starts with three
dashes afterwards that did not before, so the header ends where it ended. Main statements:
`repair_keeps_rest`, and `return_not_mem_repair` for what is written to a file.
-/

namespace AgentRules.Header

/-! ## Rows -/

/-- A row and what becomes of it: it starts with no new dashes and has no new characters but blanks. -/
structure RowTo (l m : Text) : Prop where
  dashes : dashes <+: m → dashes <+: l
  subset : ∀ c ∈ m, c ∈ l ∨ c = ' '

theorem RowTo.refl (l : Text) : RowTo l l := ⟨id, fun _ => Or.inl⟩

theorem RowTo.trans {l m n : Text} (h : RowTo l m) (h' : RowTo m n) : RowTo l n where
  dashes hd := h.dashes (h'.dashes hd)
  subset c hc := (h'.subset c hc).elim (h.subset c) Or.inr

theorem rowTo_trim {previous l : Text} (h : isMisplaced previous l = true) : RowTo l (Text.trim l) where
  dashes := by
    rintro ⟨r, hr⟩
    -- A line that starts like an item is not misplaced.
    simp [isMisplaced, ← hr, Header.dashes] at h
  subset c hc := Or.inl (Text.mem_of_mem_trim hc)

/-- What holds between a row and itself, and between a misplaced row and what is left of it, holds
between the rows and what they are after the first repair. -/
theorem forall₂_dedent {R : Text → Text → Prop} (refl : ∀ l, R l l)
    (trim : ∀ p l, isMisplaced p l = true → R l (Text.trim l)) (ls : List Text) :
    ∀ p, List.Forall₂ R ls (dedent p ls) := by
  induction ls with
  | nil => exact fun _ => List.Forall₂.nil
  | cons l ls ih =>
    intro p
    unfold dedent
    split
    · exact List.Forall₂.cons (refl l) (ih p)
    · refine List.Forall₂.cons ?_ (ih _)
      split
      · next h => exact trim p l h
      · exact refl l

/-- A line stays, or gets a blank between its first colon, which follows a word, and what is next. -/
theorem spaceColon_cases (l : Text) : spaceColon l = l ∨ ∃ w ws c r, l = w :: ws ++ ':' :: c :: r ∧
    (∀ d ∈ w :: ws, Text.isWord d = true) ∧ Text.isBlank c = false ∧ spaceColon l = w :: ws ++ ':' :: ' ' :: c :: r := by
  unfold spaceColon
  simp only
  split
  · next w ws c r hw hr =>
    by_cases hc : Text.isBlank c = true
    · exact Or.inl (if_pos hc)
    · have hl : l = w :: ws ++ ':' :: c :: r := by
        rw [← hw, ← hr, List.takeWhile_append_dropWhile]
      have hword : ∀ d ∈ w :: ws, Text.isWord d = true := by
        rw [← hw]
        exact fun d hd => List.mem_takeWhile_imp hd
      exact Or.inr ⟨w, ws, c, r, hl, hword, by simpa using hc, by rw [if_neg hc, hw]⟩
  · exact Or.inl rfl

theorem rowTo_spaceColon (l : Text) : RowTo l (spaceColon l) := by
  obtain h | ⟨w, ws, c, r, hl, hword, -, h⟩ := spaceColon_cases l
  · rw [h]
    exact RowTo.refl l
  · rw [h]
    constructor
    · rintro ⟨u, hu⟩
      have hd : '-' = w := (List.cons.inj hu).1
      have hw := hword w (by simp)
      rw [← hd] at hw
      exact absurd hw (by decide)
    · intro d hd
      rw [hl]
      simp only [List.mem_append, List.mem_cons] at hd ⊢
      tauto

theorem rows_repaired (ls : List Text) : List.Forall₂ RowTo ls ((dedent [] ls).map spaceColon) := by
  rw [List.forall₂_map_right_iff]
  exact (forall₂_dedent RowTo.refl (fun _ _ => rowTo_trim) ls []).imp fun l m h => h.trans (rowTo_spaceColon m)

/-! ## Bracketed lists of globs -/

theorem flowGlobs?_eq_some_iff {t inside : Text} {n : Nat} : flowGlobs? t = some (inside, n) ↔
    ∃ gap rest, t = "globs:".toList ++ gap ++ '[' :: inside ++ ']' :: rest ∧ Text.allBlank gap = true ∧
      ']' ∉ inside ∧ n = gap.length + inside.length + 8 := by
  unfold flowGlobs?
  constructor
  · intro h
    cases hp : "globs:".toList.isPrefixOf? t with
    | none => rw [hp] at h; cases h
    | some r =>
      rw [hp, Option.bind_some] at h
      have ht := List.isPrefixOf?_eq_some_iff_append_eq.mp hp
      split at h
      · next s hs =>
        cases hc : Text.cut? ']' s with
        | none => rw [hc] at h; cases h
        | some q =>
          obtain ⟨a, rest⟩ := q
          rw [hc, Option.map_some, Option.some.injEq, Prod.mk.injEq] at h
          obtain ⟨rfl, hn⟩ := h
          obtain ⟨rfl, ha⟩ := Text.cut?_eq_some_iff.mp hc
          have hr : r.takeWhile Text.isBlank ++ '[' :: (a ++ ']' :: rest) = r := by
            rw [← hs, Text.trimLeft, List.takeWhile_append_dropWhile]
          refine ⟨r.takeWhile Text.isBlank, rest, ?_, List.all_takeWhile, ha, by omega⟩
          rw [← ht, ← hr]
          simp only [hr, List.append_assoc, List.cons_append]
      · cases h
  · rintro ⟨gap, rest, rfl, hg, hi, rfl⟩
    have hgap : ∀ c ∈ gap, Text.isBlank c = true := List.all_eq_true.mp hg
    have hbracket : Text.isBlank '[' = false := by decide
    have hp : "globs:".toList.isPrefixOf? ("globs:".toList ++ gap ++ '[' :: inside ++ ']' :: rest) =
        some (gap ++ '[' :: inside ++ ']' :: rest) :=
      List.isPrefixOf?_eq_some_iff_append_eq.mpr (by simp)
    have ht : Text.trimLeft (gap ++ '[' :: inside ++ ']' :: rest) = '[' :: (inside ++ ']' :: rest) := by
      rw [Text.trimLeft, List.append_assoc, List.dropWhile_append_of_pos hgap, List.cons_append,
        List.dropWhile_cons_of_neg (by simp [hbracket])]
    have hl : (gap ++ '[' :: inside ++ ']' :: rest).takeWhile Text.isBlank = gap := by
      rw [List.append_assoc, List.takeWhile_append_of_pos hgap, List.cons_append,
        List.takeWhile_cons_of_neg (by simp [hbracket]), List.append_nil]
    rw [hp, Option.bind_some, ht]
    simp only
    rw [Text.cut?_eq_some_iff.mpr ⟨rfl, hi⟩, Option.map_some, hl]
    simp only [Option.some.injEq, Prod.mk.injEq, true_and]
    omega

theorem quoteGlobs_drop : ∀ (n : Nat) (t : Text), quoteGlobs n t = quoteGlobs 0 (t.drop n)
  | 0, t => by rw [List.drop_zero]
  | n + 1, [] => rfl
  | n + 1, _ :: r => by rw [quoteGlobs, quoteGlobs_drop n r, List.drop_succ_cons]

theorem quoteGlobs_of_none {c : Char} {r : Text} (h : flowGlobs? (c :: r) = none) :
    quoteGlobs 0 (c :: r) = c :: quoteGlobs 0 r := by
  rw [quoteGlobs, h]

theorem quoteGlobs_list {gap inside : Text} (hg : Text.allBlank gap = true) (hi : ']' ∉ inside) (rest : Text) :
    quoteGlobs 0 ("globs:".toList ++ gap ++ '[' :: inside ++ ']' :: rest) =
      "globs: ".toList ++ flowList (globItems inside) ++ quoteGlobs 0 rest := by
  have hm := flowGlobs?_eq_some_iff.mpr ⟨gap, rest, rfl, hg, hi, rfl⟩
  have hword : "globs:".toList ++ gap ++ '[' :: inside ++ ']' :: rest =
      'g' :: ("lobs:".toList ++ gap ++ '[' :: inside ++ [']'] ++ rest) := by simp
  have hlen : gap.length + inside.length + 8 - 1 = ("lobs:".toList ++ gap ++ '[' :: inside ++ [']']).length := by
    simp; omega
  rw [hword] at hm ⊢
  rw [quoteGlobs, hm]
  simp only
  rw [quoteGlobs_drop, hlen, List.drop_left]

/-- **Induction over quoting.** A list is rewritten as a whole, and every other character stays. -/
theorem quoteGlobs_induction {P : Text → Text → Prop} (nil : P [] [])
    (list : ∀ gap inside rest u, Text.allBlank gap = true → ']' ∉ inside → P rest u →
      P ("globs:".toList ++ gap ++ '[' :: inside ++ ']' :: rest)
        ("globs: ".toList ++ flowList (globItems inside) ++ u))
    (other : ∀ c r u, P r u → P (c :: r) (c :: u)) (t : Text) : P t (quoteGlobs 0 t) := by
  induction hn : t.length using Nat.strong_induction_on generalizing t with
  | _ n ih =>
    subst hn
    cases t with
    | nil => exact nil
    | cons c r =>
      cases hm : flowGlobs? (c :: r) with
      | none =>
        rw [quoteGlobs_of_none hm]
        exact other c r _ (ih _ (by simp) r rfl)
      | some p =>
        obtain ⟨gap, rest, ht, hg, hi, -⟩ := flowGlobs?_eq_some_iff.mp hm
        rw [ht, quoteGlobs_list hg hi]
        refine list gap p.1 rest _ hg hi (ih _ ?_ rest rfl)
        rw [ht]; simp; omega

/-- A text without the quotation marks at its ends. -/
def bare (t : Text) : Text := (((t.dropWhile Text.isQuote).reverse).dropWhile Text.isQuote).reverse

/-- A field without the blanks around it and without the quotation marks around the rest. -/
def itemOfField (f : Text) : Text := bare (Text.trim f)

theorem globItems_eq (inside : Text) :
    globItems inside = ((Text.fields ',' inside).map itemOfField).filter (!·.isEmpty) := rfl

theorem bare_isInfix (t : Text) : bare t <:+: t := by
  refine List.IsInfix.trans ?_ (List.dropWhile_suffix Text.isQuote).isInfix
  rw [bare, ← List.reverse_infix, List.reverse_reverse]
  exact (List.dropWhile_suffix Text.isQuote).isInfix

theorem infix_of_mem_globItems {inside i : Text} (h : i ∈ globItems inside) : i <:+: inside := by
  rw [globItems_eq, List.mem_filter, List.mem_map] at h
  obtain ⟨⟨f, hf, rfl⟩, -⟩ := h
  exact (bare_isInfix _).trans ((Text.trim_isInfix f).trans (Text.infix_of_mem_fields hf))

section
variable {m : Text} (hn : '\n' ∈ m) (hq : '"' ∉ m)
include hn hq

/-- What goes over the end of a row and has no quotation mark stands in one of some quoted texts. -/
theorem infix_join_quoted : ∀ {is : List Text}, m <:+: Text.join [',', ' '] (is.map quoted) → ∃ i ∈ is, m <:+: i
  | [], h => absurd (h.subset hn) List.not_mem_nil
  | [i], h => by
    have hm := List.ne_nil_of_mem hn
    change m <:+: '"' :: (i ++ '"' :: []) at h
    rw [Text.infix_cons_of_not_mem hq hm, Text.infix_append_cons hq hm] at h
    rcases h with h | h
    · exact ⟨i, by simp, h⟩
    · exact absurd (h.subset hn) List.not_mem_nil
  | i :: j :: is, h => by
    have hm := List.ne_nil_of_mem hn
    have hne : (j :: is).map quoted ≠ [] := by simp
    obtain ⟨u, hu⟩ : ∃ u, Text.join [',', ' '] ((j :: is).map quoted) = '"' :: u := by
      cases is with
      | nil => exact ⟨_, rfl⟩
      | cons k is => exact ⟨_, by rw [List.map_cons, Text.join_cons _ (by simp)]; rfl⟩
    have hjoin : Text.join [',', ' '] ((i :: j :: is).map quoted) =
        '"' :: (i ++ '"' :: ([',', ' '] ++ Text.join [',', ' '] ((j :: is).map quoted))) := by
      rw [List.map_cons, Text.join_cons _ hne]; simp [quoted]
    rw [hjoin, Text.infix_cons_of_not_mem hq hm, Text.infix_append_cons hq hm, hu, Text.infix_append_cons hq hm,
      ← Text.infix_cons_of_not_mem hq hm (b := u), ← hu] at h
    rcases h with h | h | h
    · exact ⟨i, by simp, h⟩
    · exact absurd (h.subset hn) (by decide)
    · obtain ⟨k, hk, hi⟩ := infix_join_quoted h
      exact ⟨k, List.mem_cons_of_mem i hk, hi⟩

theorem infix_list (ho : '[' ∉ m) (hc : ']' ∉ m) {inside u : Text}
    (h : m <:+: "globs: ".toList ++ flowList (globItems inside) ++ u) : m <:+: inside ∨ m <:+: u := by
  have hm := List.ne_nil_of_mem hn
  rw [flowList, List.append_assoc, List.append_assoc, List.singleton_append, ← List.append_assoc,
    Text.infix_append_cons hc hm, Text.infix_append_cons ho hm] at h
  rcases h with (h | h) | h
  · exact absurd (h.subset hn) (by decide)
  · obtain ⟨i, hi, hmi⟩ := infix_join_quoted hn hq h
    exact Or.inl (hmi.trans (infix_of_mem_globItems hi))
  · exact Or.inr h

end

/-- Quoting starts no text with a new character but a letter. -/
theorem prefix_quoteGlobs {t p : Text} (hp : 'g' ∉ p) (h : p <+: quoteGlobs 0 t) : p <+: t := by
  refine quoteGlobs_induction (P := fun t u => ∀ p, 'g' ∉ p → p <+: u → p <+: t) ?_ ?_ ?_ t p hp h
  · exact fun _ _ h => h
  · intro gap inside rest u _ _ _ p hp h
    cases p with
    | nil => exact List.nil_prefix
    | cons c p =>
      change c :: p <+: 'g' :: _ at h
      rw [List.cons_prefix_cons] at h
      exact absurd (by rw [h.1]; exact List.mem_cons_self) hp
  · intro c r u ih p hp h
    cases p with
    | nil => exact List.nil_prefix
    | cons d p =>
      rw [List.cons_prefix_cons] at h ⊢
      exact ⟨h.1, ih p (fun hm => hp (List.mem_cons_of_mem d hm)) h.2⟩

/-- What starts with a line feed and has no marks of a list is not made by quoting, if what follows the
line feed is not. -/
theorem infix_quoteGlobs {p : Text} (hq : '"' ∉ p) (ho : '[' ∉ p) (hc : ']' ∉ p)
    (hp : ∀ t, p <+: quoteGlobs 0 t → p <+: t) (t : Text) (h : '\n' :: p <:+: quoteGlobs 0 t) : '\n' :: p <:+: t := by
  induction hlen : t.length using Nat.strong_induction_on generalizing t with
  | _ n ih =>
    subst hlen
    cases t with
    | nil => exact h
    | cons c r =>
      cases hm : flowGlobs? (c :: r) with
      | none =>
        rw [quoteGlobs_of_none hm, List.infix_cons_iff, List.cons_prefix_cons] at h
        rw [List.infix_cons_iff, List.cons_prefix_cons]
        exact h.imp (fun ⟨hn, hr⟩ => ⟨hn, hp r hr⟩) fun hr => ih r.length (by simp) r hr rfl
      | some m =>
        obtain ⟨gap, rest, ht, hg, hi, -⟩ := flowGlobs?_eq_some_iff.mp hm
        rw [ht, quoteGlobs_list hg hi] at h
        have hne : ∀ {d : Char}, d ≠ '\n' → d ∉ p → d ∉ '\n' :: p := fun hd hdp => by simp [hd, hdp]
        rw [ht]
        rcases infix_list (by simp) (hne (by decide) hq) (hne (by decide) ho) (hne (by decide) hc) h with h | h
        · exact h.trans ⟨"globs:".toList ++ gap ++ ['['], ']' :: rest, by simp⟩
        · refine (ih rest.length (by rw [ht]; simp; omega) rest h rfl).trans (List.IsSuffix.isInfix ?_)
          exact ⟨"globs:".toList ++ gap ++ '[' :: m.1 ++ [']'], by simp⟩

/-- Quoting closes no block. -/
theorem closing_infix_quoteGlobs {t : Text} (h : closing <:+: quoteGlobs 0 t) : closing <:+: t :=
  infix_quoteGlobs (by decide) (by decide) (by decide) (fun _ => prefix_quoteGlobs (by decide)) t h

theorem mem_list {inside : Text} {c : Char} (h : c ∈ flowList (globItems inside)) :
    c ∈ inside ∨ c ∈ "globs: [],\"".toList := by
  simp only [flowList, List.mem_append, List.mem_cons, List.not_mem_nil, or_false] at h
  rcases h with (rfl | h) | rfl
  · exact Or.inr (by decide)
  · rcases Text.mem_join h with h | ⟨q, hq, h⟩
    · simp only [List.mem_cons, List.not_mem_nil, or_false] at h
      rcases h with rfl | rfl
      · exact Or.inr (by decide)
      · exact Or.inr (by decide)
    · obtain ⟨i, hi, rfl⟩ := List.mem_map.mp hq
      simp only [quoted, List.mem_append, List.mem_cons, List.not_mem_nil, or_false] at h
      rcases h with (rfl | h) | rfl
      · exact Or.inr (by decide)
      · exact Or.inl ((infix_of_mem_globItems hi).subset h)
      · exact Or.inr (by decide)
  · exact Or.inr (by decide)

theorem mem_quoteGlobs (t : Text) : ∀ c ∈ quoteGlobs 0 t, c ∈ t ∨ c ∈ "globs: [],\"".toList := by
  refine quoteGlobs_induction (P := fun t u => ∀ c ∈ u, c ∈ t ∨ c ∈ "globs: [],\"".toList) ?_ ?_ ?_ t
  · exact fun _ h => absurd h List.not_mem_nil
  · intro gap inside rest u _ _ ih c hc
    rw [List.mem_append, List.mem_append] at hc
    rcases hc with (hc | hc) | hc
    · exact Or.inr (List.mem_append_left "[],\"".toList hc)
    · refine (mem_list hc).imp_left fun h => ?_
      simp [h]
    · refine (ih c hc).imp_left fun h => ?_
      simp [h]
  · intro d r u ih c hc
    rcases List.mem_cons.mp hc with rfl | hc
    · exact Or.inl List.mem_cons_self
    · exact (ih c hc).imp_left (List.mem_cons_of_mem d)

theorem flowGlobs?_append_of_some {a : Text} {p : Text × ℕ} (h : flowGlobs? a = some p) (b : Text) :
    flowGlobs? (a ++ b) = some p := by
  obtain ⟨gap, rest, rfl, hg, hi, hn⟩ := flowGlobs?_eq_some_iff.mp h
  exact flowGlobs?_eq_some_iff.mpr ⟨gap, rest ++ b, by simp, hg, hi, hn⟩

/-- No list goes on after the last bracket. -/
theorem flowGlobs?_append {b : Text} (hb : ']' ∉ b) (a : Text) : flowGlobs? (a ++ b) = flowGlobs? a := by
  refine Option.ext fun ⟨inside, n⟩ => ⟨fun hm => ?_, fun hm => flowGlobs?_append_of_some hm b⟩
  obtain ⟨gap, rest, h, hg, hi, hn⟩ := flowGlobs?_eq_some_iff.mp hm
  rw [flowGlobs?_eq_some_iff]
  rcases List.append_eq_append_iff.mp h with ⟨u, -, hu⟩ | ⟨u, hu, hr⟩
  · exact absurd (by rw [hu]; simp) hb
  · cases u with
    | nil => exact absurd (by rw [← List.nil_append b, ← hr]; simp) hb
    | cons c u =>
      rw [List.cons_append, List.cons.injEq] at hr
      rw [← hr.1] at hu
      exact ⟨gap, u, hu, hg, hi, hn⟩

theorem quoteGlobs_of_not_mem : ∀ {b : Text}, ']' ∉ b → quoteGlobs 0 b = b
  | [], _ => rfl
  | c :: r, h => by
    have hnone : flowGlobs? (c :: r) = none := flowGlobs?_append h []
    rw [List.mem_cons, not_or] at h
    rw [quoteGlobs, hnone]
    simp only
    rw [quoteGlobs_of_not_mem h.2]

/-- Two texts are quoted one by one if no list goes on from the first into the second. -/
theorem quoteGlobs_append_of {b : Text} : ∀ {a : Text},
    (∀ a', a' <:+ a → a' ≠ [] → flowGlobs? (a' ++ b) = flowGlobs? a') →
      quoteGlobs 0 (a ++ b) = quoteGlobs 0 a ++ quoteGlobs 0 b := by
  intro a
  induction hn : a.length using Nat.strong_induction_on generalizing a with
  | _ n ih =>
    subst hn
    intro h
    cases a with
    | nil => rfl
    | cons c r =>
      have hf := h (c :: r) (List.suffix_refl _) (by simp)
      cases hm : flowGlobs? (c :: r) with
      | none =>
        rw [hm] at hf
        rw [List.cons_append] at hf ⊢
        have hrest := ih _ (by simp) rfl fun a' ha => h a' (ha.trans (List.suffix_cons c r))
        rw [quoteGlobs_of_none hf, quoteGlobs_of_none hm, hrest]; rfl
      | some p =>
        obtain ⟨gap, rest, ht, hg, hi, -⟩ := flowGlobs?_eq_some_iff.mp hm
        have hsuffix : rest <:+ c :: r := by
          rw [ht]
          exact ⟨"globs:".toList ++ gap ++ '[' :: p.1 ++ [']'], by simp⟩
        have hrest := ih rest.length (by rw [ht]; simp; omega) rfl fun a' ha => h a' (ha.trans hsuffix)
        rw [ht, List.append_assoc, List.cons_append, quoteGlobs_list hg hi, quoteGlobs_list hg hi, hrest]
        simp only [List.append_assoc]

theorem quoteGlobs_append {b : Text} (hb : ']' ∉ b) (a : Text) : quoteGlobs 0 (a ++ b) = quoteGlobs 0 a ++ b := by
  rw [quoteGlobs_append_of fun a' _ _ => flowGlobs?_append hb a', quoteGlobs_of_not_mem hb]

theorem quoteAllGlobs_eq (t : Text) : quoteAllGlobs t = quoteGlobs 0 t := by
  have hafter : ']' ∉ (t.reverse.takeWhile (· != ']')).reverse := by
    intro h
    have := List.mem_takeWhile_imp (List.mem_reverse.mp h)
    simp at this
  have hsplit : (t.reverse.dropWhile (· != ']')).reverse ++ (t.reverse.takeWhile (· != ']')).reverse = t := by
    rw [← List.reverse_append, List.takeWhile_append_dropWhile, List.reverse_reverse]
  unfold quoteAllGlobs
  simp only
  rw [← quoteGlobs_append hafter, hsplit]

/-! ## Blocks -/

theorem exists_of_mem_right {R : Text → Text → Prop} {ls ms : List Text} (h : List.Forall₂ R ls ms) {m : Text}
    (hm : m ∈ ms) : ∃ l ∈ ls, R l m := by
  induction h with
  | nil => cases hm
  | cons hr _ ih =>
    rcases List.mem_cons.mp hm with rfl | hm
    · exact ⟨_, List.mem_cons_self, hr⟩
    · obtain ⟨l, hl, hr⟩ := ih hm
      exact ⟨l, List.mem_cons_of_mem _ hl, hr⟩

/-- The rows of a block after the first two repairs. -/
theorem rows_join_repaired (block : Text) :
    Text.rows (Text.join ['\n'] ((dedent [] (Text.rows block)).map spaceColon)) =
      (dedent [] (Text.rows block)).map spaceColon := by
  have hrows := rows_repaired (Text.rows block)
  refine Text.fields_join ?_ fun m hm hn => ?_
  · intro h
    rw [h, List.forall₂_nil_right_iff] at hrows
    exact Text.rows_ne_nil block hrows
  · obtain ⟨l, hl, hr⟩ := exists_of_mem_right hrows hm
    rcases hr.subset _ hn with hn | hn
    · exact Text.sep_not_mem_fields hl hn
    · exact absurd hn (by decide)

theorem closing_infix_repairBlock {block : Text} (h : closing <:+: repairBlock block) : closing <:+: block := by
  unfold repairBlock at h
  simp only at h
  rw [quoteAllGlobs_eq] at h
  have hrows := rows_repaired (Text.rows block)
  obtain ⟨m, hm, hd⟩ := (closing_infix_iff _).mp (closing_infix_quoteGlobs h)
  rw [rows_join_repaired] at hm
  obtain ⟨l, ls, hl⟩ := List.exists_cons_of_ne_nil (Text.rows_ne_nil block)
  rw [closing_infix_iff, hl]
  rw [hl] at hrows hm
  cases hrows' : (dedent [] (l :: ls)).map spaceColon with
  | nil => rw [hrows'] at hm; cases hm
  | cons m' ms =>
    rw [hrows', List.forall₂_cons] at hrows
    rw [hrows'] at hm
    obtain ⟨k, hk, hr⟩ := exists_of_mem_right hrows.2 hm
    exact ⟨k, hk, hr.dashes hd⟩

theorem return_not_mem_repairBlock {block : Text} (h : '\r' ∉ block) : '\r' ∉ repairBlock block := by
  intro hm
  unfold repairBlock at hm
  simp only at hm
  rw [quoteAllGlobs_eq] at hm
  rcases mem_quoteGlobs _ _ hm with hm | hm
  · rcases Text.mem_join hm with hm | ⟨m, hm', hr⟩
    · exact absurd hm (by decide)
    · obtain ⟨l, hl, hrow⟩ := exists_of_mem_right (rows_repaired _) hm'
      rcases hrow.subset _ hr with hr | hr
      · exact h (Text.mem_of_mem_fields hl hr)
      · exact absurd hr (by decide)
  · exact absurd hm (by decide)

/-! ## Documents -/

theorem ofBlock_ne_absent (block : Text) : ofBlock block ≠ absent := by
  unfold ofBlock
  simp only
  split
  · exact nofun
  · exact nofun

theorem cut?_of_absent {t : Text} (h : ofText t = absent) : cut? t = none := by
  unfold ofText at h
  split at h
  · next hc => exact hc
  · exact absurd h (ofBlock_ne_absent _)

theorem cut?_of_malformed {t : Text} (h : ofText t = malformed) : ∃ block rest, cut? t = some (block, rest) := by
  unfold ofText at h
  split at h
  · cases h
  · next block rest hc => exact ⟨block, rest, hc⟩

theorem repair_of_absent {t : Text} (h : ofText t = absent) : repair t = minimal ++ t := by
  unfold repair; rw [h]

theorem repair_of_malformed {t block rest : Text} (h : ofText t = malformed) (hc : cut? t = some (block, rest)) :
    repair t = dashes ++ '\n' :: (repairBlock block ++ closing ++ rest) := by
  unfold repair; rw [h, hc]; simp [closing]

theorem repair_of_fields {t : Text} {fs : Fields} (h : ofText t = fields fs) : repair t = t := by
  unfold repair; rw [h]

theorem cut?_minimal (t : Text) : cut? (minimal ++ t) = some ("description: \nalwaysApply: false".toList, '\n' :: t) := by
  have hm : minimal ++ t =
      dashes ++ '\n' :: ("description: \nalwaysApply: false".toList ++ closing ++ '\n' :: t) := by
    have : minimal = dashes ++ '\n' :: ("description: \nalwaysApply: false".toList ++ closing ++ ['\n']) := by decide
    rw [this]; simp only [List.append_assoc, List.cons_append, List.nil_append]
  rw [hm, cut?_dashes_newline, cutBlock?_append (by decide)]
  rfl

theorem body_minimal (t : Text) : body (minimal ++ t) = t := by
  rw [body_of_cut? (cut?_minimal t)]
  rfl

/-- A repaired block is closed where the block was. -/
theorem cut?_repairBlock {t block rest : Text} (h : cut? t = some (block, rest)) :
    cut? (dashes ++ '\n' :: (repairBlock block ++ closing ++ rest)) = some (withoutReturn (repairBlock block), rest) := by
  obtain ⟨e, b, -, -, hb, rfl⟩ := cut?_eq_some_iff.mp h
  rw [cut?_dashes_newline, cutBlock?_append]
  intro hi
  refine hb ((closing_infix_repairBlock hi).trans ?_)
  unfold withoutReturn
  split
  · exact (List.dropLast_prefix b).isInfix
  · exact List.infix_rfl

/-- After the dashes of a repaired header stands what stood there, or a line end and the whole text. -/
theorem cut?_repair (t : Text) :
    ∃ block, cut? (repair t) = some (block, ((cut? t).map Prod.snd).getD ('\n' :: t)) := by
  cases h : ofText t with
  | absent =>
    rw [repair_of_absent h, cut?_minimal, cut?_of_absent h]
    exact ⟨_, rfl⟩
  | malformed =>
    obtain ⟨block, rest, hc⟩ := cut?_of_malformed h
    rw [repair_of_malformed h hc, cut?_repairBlock hc, hc]
    exact ⟨_, rfl⟩
  | fields fs =>
    obtain ⟨block, rest, hc⟩ : ∃ block rest, cut? t = some (block, rest) := by
      unfold ofText at h
      split at h
      · cases h
      · next block rest hc => exact ⟨block, rest, hc⟩
    rw [repair_of_fields h, hc]
    exact ⟨_, rfl⟩

theorem body_repair (t : Text) : body (repair t) = body t := by
  obtain ⟨block, hb⟩ := cut?_repair t
  rw [body_of_cut? hb]
  cases h : cut? t with
  | none =>
    rw [body_of_cut?_none h]
    rfl
  | some p =>
    rw [body_of_cut? h]
    rfl

theorem return_not_mem_repair {t : Text} (h : '\r' ∉ t) : '\r' ∉ repair t := by
  cases ht : ofText t with
  | absent =>
    rw [repair_of_absent ht, List.mem_append, not_or]
    exact ⟨by decide, h⟩
  | malformed =>
    obtain ⟨block, rest, hc⟩ := cut?_of_malformed ht
    have hparts : block ⊆ t ∧ rest ⊆ t := by
      obtain ⟨e, b, -, rfl, -, rfl⟩ := cut?_eq_some_iff.mp hc
      refine ⟨fun c hm => ?_, fun c hm => by simp [hm]⟩
      have : c ∈ b := by
        unfold withoutReturn at hm
        split at hm
        · exact List.dropLast_subset b hm
        · exact hm
      simp [this]
    rw [repair_of_malformed ht hc]
    simp only [List.mem_append, List.mem_cons, not_or]
    exact ⟨by decide, by decide, ⟨return_not_mem_repairBlock fun hm => h (hparts.1 hm), by decide⟩,
      fun hm => h (hparts.2 hm)⟩
  | fields fs => rw [repair_of_fields ht]; exact h

/-- **Repair keeps the body**, and all that stands after the dashes which close the header. -/
theorem repair_keeps_rest (t : Text) : body (repair t) = body t ∧
    ∃ block, cut? (repair t) = some (block, ((cut? t).map Prod.snd).getD ('\n' :: t)) :=
  ⟨body_repair t, cut?_repair t⟩

example : body (repair "---\r\n x:y\r\nglobs: [a,\r\n '--- b']\r\r\n---\r\nrest".toList) = "rest".toList := by
  decide

end AgentRules.Header
