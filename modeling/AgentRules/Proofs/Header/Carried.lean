import Mathlib
import AgentRules.Header
import AgentRules.Proofs.Text.Unbroken

/-!
# Fields that a header can carry

What reading a header can give: keys that are trimmed, have no colon, stand on one line, do not
start like an item and come once each, and values on one line. Main statement: `carried_of_ofText`.
-/

namespace AgentRules.Header

/-- A key as the line of a field can have it. -/
structure IsKey (k : Text) : Prop where
  trimmed : Text.trim k = k
  plain : ':' ∉ k
  unbroken : Text.Unbroken k
  notItem : ¬ ['-', ' '] <+: k

/-- No text of a value goes over the end of a line. -/
def Value.Unbroken : Value → Prop
  | .flag _ => True
  | .text t => Text.Unbroken t
  | .items ts => ∀ t ∈ ts, Text.Unbroken t

namespace Fields

def keys (fs : Fields) : List Text := fs.map (·.1)

/-- Fields as a header can carry them. -/
structure Carried (fs : Fields) : Prop where
  nodup : fs.keys.Nodup
  key : ∀ f ∈ fs, IsKey f.1
  value : ∀ f ∈ fs, f.2.Unbroken

theorem Carried.nil : Carried [] := ⟨List.nodup_nil, by simp, by simp⟩

theorem Carried.sublist {fs gs : Fields} (h : fs.Carried) (hg : gs.Sublist fs) : gs.Carried :=
  ⟨h.nodup.sublist (hg.map _), fun f hf => h.key f (hg.subset hf), fun f hf => h.value f (hg.subset hf)⟩

theorem mem_put {k : Text} {v : Value} {f : Text × Value} : ∀ {fs : Fields}, f ∈ fs.put k v → f = (k, v) ∨ f ∈ fs
  | [], h => by simp [put] at h; exact Or.inl h
  | (j, w) :: fs, h => by
    by_cases hj : j = k
    · simp only [put, hj, ite_true, List.mem_cons] at h ⊢
      exact h.imp_right Or.inr
    · simp only [put, hj, ite_false, List.mem_cons] at h ⊢
      rcases h with h | h
      · exact Or.inr (Or.inl h)
      · exact (mem_put h).imp_right Or.inr

theorem put_of_not_mem {k : Text} (v : Value) : ∀ {fs : Fields}, k ∉ fs.keys → fs.put k v = fs ++ [(k, v)]
  | [], _ => rfl
  | (j, w) :: fs, h => by
    simp only [keys, List.map_cons, List.mem_cons, not_or] at h
    simp only [put, Ne.symm h.1, ite_false, put_of_not_mem v h.2]; rfl

theorem keys_put_of_mem {k : Text} (v : Value) : ∀ {fs : Fields}, k ∈ fs.keys → (fs.put k v).keys = fs.keys
  | [], h => by simp [keys] at h
  | (j, w) :: fs, h => by
    by_cases hj : j = k
    · simp [put, keys, hj]
    · have hk : k ∈ keys fs := by simpa [keys, Ne.symm hj] using h
      have ih := keys_put_of_mem v hk
      simp only [put, hj, ite_false, keys, List.map_cons] at ih ⊢
      rw [ih]

theorem nodup_put {k : Text} (v : Value) {fs : Fields} (h : fs.keys.Nodup) : (fs.put k v).keys.Nodup := by
  by_cases hk : k ∈ fs.keys
  · rw [keys_put_of_mem v hk]; exact h
  · rw [put_of_not_mem v hk]
    simp only [keys, List.map_append, List.map_cons, List.map_nil] at hk ⊢
    exact List.nodup_append.mpr ⟨h, by simp, by simpa using fun a ha => ne_of_mem_of_not_mem ha hk⟩

theorem Carried.put {fs : Fields} (h : fs.Carried) {k : Text} {v : Value} (hk : IsKey k) (hv : v.Unbroken) :
    (fs.put k v).Carried where
  nodup := nodup_put v h.nodup
  key f hf := by
    rcases mem_put hf with rfl | hf
    · exact hk
    · exact h.key f hf
  value f hf := by
    rcases mem_put hf with rfl | hf
    · exact hv
    · exact h.value f hf

end Fields

/-! ## Lines -/

theorem subset_unquote (t : Text) : Text.unquote t ⊆ t := by
  unfold Text.unquote
  split
  · split
    · exact fun c hc => List.mem_cons_of_mem _ (List.dropLast_subset _ hc)
    · exact fun c hc => hc
  · exact fun c hc => hc

/-- A line that tells nothing that a header cannot carry. -/
def Line.Carried : Line → Prop
  | .item t => Text.Unbroken t
  | .field k v => IsKey k ∧ Text.Unbroken v
  | .other => True

/-- The role of a line that does not start like an item hangs on its first colon. -/
theorem Line.ofText_of_not_item {raw : Text} (h₁ : Text.trim raw ≠ ['-']) (h₂ : ¬ ['-', ' '] <+: Text.trim raw) :
    Line.ofText raw = match Text.cut? ':' raw with
      | some (k, v) => .field (Text.trim k) (Text.trim v)
      | none => .other := by
  unfold Line.ofText
  split
  · next h => exact absurd h h₁
  · next r h => rw [h] at h₂; exact absurd ⟨r, rfl⟩ h₂
  · rfl

theorem isKey_trim {a b : Text} (ha : ':' ∉ a) (hu : Text.Unbroken a)
    (hi : ¬ ['-', ' '] <+: Text.trim (a ++ ':' :: b)) : IsKey (Text.trim a) where
  trimmed := Text.trim_trim a
  plain h := ha (Text.mem_of_mem_trim h)
  unbroken := hu.subset fun _ h => Text.mem_of_mem_trim h
  notItem h := by
    -- The start of the trimmed key is the start of the trimmed line.
    rw [Text.trim_append_cons (by decide)] at hi
    exact hi (h.trans ((Text.trimRight_isPrefix _).trans (List.prefix_append _ _)))

theorem Line.carried_ofText {raw : Text} (h : Text.Unbroken raw) : (Line.ofText raw).Carried := by
  have hsub : ∀ {t : Text}, t ⊆ Text.trim raw → Text.Unbroken t :=
    fun ht => h.subset fun c hc => Text.mem_of_mem_trim (ht hc)
  by_cases h₁ : Text.trim raw = ['-']
  · rw [Line.ofText, h₁]; exact Text.Unbroken.nil
  by_cases h₂ : ['-', ' '] <+: Text.trim raw
  · obtain ⟨r, hr⟩ := h₂
    have : Line.ofText raw = .item (Text.unquote (Text.trim r)) := by rw [Line.ofText, ← hr]; rfl
    rw [this]
    refine hsub fun c hc => ?_
    rw [← hr]
    exact List.mem_append_right _ (Text.mem_of_mem_trim (subset_unquote _ hc))
  rw [Line.ofText_of_not_item h₁ h₂]
  cases hc : Text.cut? ':' raw with
  | none => trivial
  | some p =>
    obtain ⟨a, b⟩ := p
    obtain ⟨rfl, ha⟩ := Text.cut?_eq_some_iff.mp hc
    rw [Text.unbroken_append, Text.unbroken_cons] at h
    exact ⟨isKey_trim ha h.1 h₂, h.2.2.subset fun c hc => Text.mem_of_mem_trim hc⟩

/-! ## Reading -/

theorem mem_itemsAtFront {t : Text} : ∀ {ls : List Line}, t ∈ itemsAtFront ls → Line.item t ∈ ls
  | [], h => by simp [itemsAtFront] at h
  | .item u :: ls, h => by
    rcases List.mem_cons.mp h with rfl | h
    · simp
    · exact List.mem_cons_of_mem _ (mem_itemsAtFront h)
  | .field _ _ :: _, h => by simp [itemsAtFront] at h
  | .other :: _, h => by simp [itemsAtFront] at h

theorem unbroken_ofLines {v : Text} {ls : List Line} (hv : Text.Unbroken v) (hl : ∀ l ∈ ls, l.Carried) :
    (Value.ofLines v ls).Unbroken := by
  unfold Value.ofLines Value.ofText
  split
  · exact fun t ht => hl _ (mem_itemsAtFront ht)
  split
  · trivial
  split
  · trivial
  · exact hv.subset (subset_unquote v)

theorem gather_item (fs : Fields) (t : Text) (ls : List Line) : gather fs (.item t :: ls) = gather fs ls := rfl

theorem gather_other (fs : Fields) (ls : List Line) : gather fs (.other :: ls) = gather fs ls := rfl

theorem gather_field (fs : Fields) (k v : Text) (ls : List Line) :
    gather fs (.field k v :: ls) = gather (fs.put k (Value.ofLines v ls)) ls := rfl

theorem carried_gather : ∀ {ls : List Line} {fs : Fields}, fs.Carried → (∀ l ∈ ls, l.Carried) → (gather fs ls).Carried
  | [], _, hf, _ => hf
  | .item _ :: _, _, hf, hl => by
    rw [gather_item]; exact carried_gather hf fun l h => hl l (List.mem_cons_of_mem _ h)
  | .other :: _, _, hf, hl => by
    rw [gather_other]; exact carried_gather hf fun l h => hl l (List.mem_cons_of_mem _ h)
  | .field k v :: ls, fs, hf, hl => by
    have hkv : IsKey k ∧ Text.Unbroken v := hl (.field k v) (by simp)
    have hls : ∀ l ∈ ls, l.Carried := fun l h => hl l (List.mem_cons_of_mem _ h)
    rw [gather_field]
    exact carried_gather (hf.put hkv.1 (unbroken_ofLines hkv.2 hls)) hls

theorem ofBlock_eq_fields {block : Text} {fs : Fields} (h : ofBlock block = .fields fs) :
    fs = gather [] ((blockLines block).map Line.ofText) := by
  unfold ofBlock at h
  simp only at h
  split at h
  · exact (Header.fields.inj h).symm
  · cases h

/-- **The fields of a header can be carried by a header.** -/
theorem carried_of_ofText {t : Text} {fs : Fields} (h : ofText t = .fields fs) : fs.Carried := by
  unfold ofText at h
  split at h
  · cases h
  · rw [ofBlock_eq_fields h]
    refine carried_gather Fields.Carried.nil fun l hl => ?_
    obtain ⟨raw, hr, rfl⟩ := List.mem_map.mp hl
    exact Line.carried_ofText (Text.unbroken_of_mem_lines _ raw (List.mem_of_mem_filter hr))

end AgentRules.Header
