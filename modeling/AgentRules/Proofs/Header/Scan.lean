import AgentRules.Proofs.Header.Meaning

/-!
# Reading a header line by line

A header can be read in one pass over the lines of its block. What has been found so far is kept: the
fields, the key whose list still grows, and the last line that is not blank. An item goes to the list that
grows, and a stray line ends the pass. `ofBlock` looks at the lines twice and looks ahead at every
field. What is to come from the items in front ties the two. Main statement: `scan_eq_ofBlock`.
-/

namespace AgentRules.Header

namespace Fields

/-- Adds an item to the list under a key. What is no list becomes one. -/
def addItem (k : Text) (fs : Fields) (t : Text) : Fields :=
  match fs.get? k with
  | some (.items ts) => fs.put k (.items (ts ++ [t]))
  | _ => fs.put k (.items [t])

end Fields

/-- What has been read of some lines. -/
structure Reading where
  fields : Fields := []
  /-- The key whose list still grows. -/
  growing : Option Text := none
  previous : Text := []

namespace Reading

def readLine (s : Reading) : Line → Reading
  | .item t => match s.growing with
    | some k => { s with fields := Fields.addItem k s.fields t }
    | none => s
  | .field k v =>
    { s with fields := s.fields.put k (Value.ofText v), growing := if v.isEmpty then some k else none }
  | .other => { s with growing := none }

def step (s : Reading) (l : Text) : Option Reading :=
  if Text.allBlank l then some s
  else if isMisplaced s.previous l then none
  else some (readLine { s with previous := l } (Line.ofText l))

/-- The fields of a reading with the items in front of some lines added to the list that grows. -/
def fieldsBefore (s : Reading) (ls : List Line) : Fields :=
  match s.growing with
  | some k => (itemsAtFront ls).foldl (Fields.addItem k) s.fields
  | none => s.fields

end Reading

/-- **One pass** over the lines of a block. -/
def scan (block : Text) : Header :=
  (((Text.lines block).foldlM Reading.step {}).map (·.fields)).elim malformed fields

/-! ## Lists that grow -/

namespace Fields

theorem put_put (k : Text) (v w : Value) : ∀ fs : Fields, (fs.put k v).put k w = fs.put k w
  | [] => by simp [put]
  | (j, u) :: fs => by
    by_cases hj : j = k
    · simp [put, hj]
    · simp only [put, hj, ite_false, put_put k v w fs]

theorem addItem_put_items (k : Text) (ts : List Text) (t : Text) (fs : Fields) :
    addItem k (fs.put k (.items ts)) t = fs.put k (.items (ts ++ [t])) := by
  rw [addItem, get?_put_self]
  exact put_put k _ _ fs

theorem foldl_addItem_put_items (k : Text) (is : List Text) (fs : Fields) : ∀ ts : List Text,
    is.foldl (addItem k) (fs.put k (.items ts)) = fs.put k (.items (ts ++ is)) := by
  induction is with
  | nil => intro ts; rw [List.append_nil]; rfl
  | cons i is ih => intro ts; rw [List.foldl_cons, addItem_put_items, ih, List.append_assoc]; rfl

/-- A field without a value takes the items in front, if there are any. -/
theorem foldl_addItem_put_ofText (k : Text) (ls : List Line) (fs : Fields) :
    (itemsAtFront ls).foldl (addItem k) (fs.put k (Value.ofText [])) = fs.put k (Value.ofLines [] ls) := by
  cases h : itemsAtFront ls with
  | nil => rw [Value.ofLines, h]; rfl
  | cons i is =>
    have hfirst : addItem k (fs.put k (Value.ofText [])) i = fs.put k (.items [i]) := by
      have htext : Value.ofText [] = .text [] := rfl
      rw [addItem, get?_put_self, htext, put_put]
    rw [List.foldl_cons, hfirst, foldl_addItem_put_items, Value.ofLines, h]; rfl

end Fields

/-! ## One step, and all steps -/

namespace Reading

theorem previous_readLine (s : Reading) (l : Line) : (s.readLine l).previous = s.previous := by
  cases l with
  | item t => cases hk : s.growing <;> simp only [readLine, hk]
  | field k v => rfl
  | other => rfl

theorem fieldsBefore_of_no_items (s : Reading) {ls : List Line} (h : itemsAtFront ls = []) :
    s.fieldsBefore ls = s.fields := by
  cases hk : s.growing <;> simp only [fieldsBefore, hk, h, List.foldl_nil]

/-- What is found in the end is the same before and after a line is read. -/
theorem gather_readLine (s : Reading) (l : Line) (ls : List Line) :
    gather ((s.readLine l).fieldsBefore ls) ls = gather (s.fieldsBefore (l :: ls)) (l :: ls) := by
  cases l with
  | item t =>
    rw [gather_item]
    cases hk : s.growing with
    | none => simp only [readLine, fieldsBefore, hk]
    | some k => simp only [readLine, fieldsBefore, hk, itemsAtFront, List.foldl_cons]
  | field k v =>
    rw [gather_field, fieldsBefore_of_no_items s rfl]
    -- Only the list of a field without a value grows.
    cases v with
    | nil => simp only [readLine, fieldsBefore, List.isEmpty_nil, if_true, Fields.foldl_addItem_put_ofText]
    | cons c v => rfl
  | other =>
    rw [gather_other, fieldsBefore_of_no_items s rfl]; rfl

theorem foldlM_step_filter (ls : List Text) : ∀ s : Reading,
    ls.foldlM step s = (ls.filter (!Text.allBlank ·)).foldlM step s := by
  induction ls with
  | nil => exact fun _ => rfl
  | cons l ls ih =>
    intro s
    by_cases hb : Text.allBlank l = true
    · rw [List.filter_cons_of_neg (by simp [hb]), List.foldlM_cons, step, if_pos hb]
      exact ih s
    · rw [List.filter_cons_of_pos (by simpa using hb), List.foldlM_cons, List.foldlM_cons]
      exact congrArg (step s l).bind (funext ih)

/-- The other lines are read to the end if they are well indented, and all is found then. -/
theorem foldlM_step {ls : List Text} (h : ∀ l ∈ ls, Text.allBlank l = false) : ∀ s : Reading,
    (ls.foldlM step s).map (·.fields) =
      if wellIndented s.previous ls then
        some (gather (s.fieldsBefore (ls.map Line.ofText)) (ls.map Line.ofText))
      else none := by
  induction ls with
  | nil =>
    intro s
    have hfront : s.fieldsBefore [] = s.fields := fieldsBefore_of_no_items s rfl
    simp [wellIndented, gather, hfront]
  | cons l ls ih =>
    intro s
    obtain ⟨hl, hls⟩ := List.forall_mem_cons.mp h
    have hb : ¬ Text.allBlank l = true := by simp [hl]
    rw [List.foldlM_cons, step, if_neg hb, wellIndented, List.map_cons]
    by_cases hm : isMisplaced s.previous l = true
    · simp [hm]
    · rw [if_neg hm, Option.bind_eq_bind, Option.bind_some, ih hls, previous_readLine, gather_readLine]
      simp only [hm, Bool.not_false, Bool.true_and]
      rfl

end Reading

/-- **One pass is enough.** Reading line by line finds what looking ahead finds. -/
theorem scan_eq_ofBlock (block : Text) : scan block = ofBlock block := by
  have hinked : ∀ l ∈ blockLines block, Text.allBlank l = false := fun l hl => by
    simpa using (List.mem_filter.mp hl).2
  rw [scan, Reading.foldlM_step_filter, ← blockLines, Reading.foldlM_step hinked, ofBlock]
  by_cases hw : wellIndented [] (blockLines block) = true
  · simp only [hw, if_true]; rfl
  · simp only [hw, Bool.false_eq_true, if_false]; rfl

end AgentRules.Header
