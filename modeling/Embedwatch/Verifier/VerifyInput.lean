import Embedwatch.Host.Extractor
import Embedwatch.Verifier.TraceParser

/-! The verifier's dynamic trace: the records of the text it receives move the definitions to their
addresses, and each use is checked against its definition. What the verifier prints about a
violation is left out. -/

namespace Embedwatch.Verifier

open Library.PlainText
open Host (recordLine word05u word05d word08x)

def getIdVar (x : ℤ) : ℤ × ℤ := (x >>> (16 : ℕ), x % 0x10000)

namespace TraceLine

def getLen (t : TraceLine) (gdef : ℤ) : Option ℤ :=
  if occurs defType t.type then (t.length gdef).or (t.length 0) else none

def getBase (t : TraceLine) (frameCounter : ℤ) : Option ℤ :=
  if occurs defType t.type then
    match (t.address frameCounter).or (t.address 0) with
    | some a => if t.type = sdefType then t.offset.map (a + ·) else some a
    | none => some 0
  else none

def checkUse (defStruct : TraceLine) (endAddress gdef : ℤ) : Option Bool := do
  let begin ← defStruct.getBase gdef
  let len ← defStruct.getLen gdef
  some (endAddress - begin > len)

end TraceLine

namespace State

def modifyDefs (v : State) (id : ℤ) (f : TraceLine → TraceLine) : Option State :=
  if v.defMap id = [] then none
  else some { v with nodes := v.nodes.mapIdx fun p t => if p ∈ v.defMap id then f t else t }

def onDef (v : State) (idVar : ℤ × ℤ) (addr : ℤ) : Option State :=
  v.modifyDefs idVar.1 fun df => { df with address := Function.update df.address idVar.2 (some addr) }

def onDdef (v : State) (idVar : ℤ × ℤ) (addr len : ℤ) : Option State :=
  v.modifyDefs idVar.1 fun df =>
    { df with
      address := Function.update (Function.update df.address idVar.2 (some addr)) 0 (some addr)
      length := Function.update (Function.update df.length idVar.2 (some len)) 0 (some len) }

/-- The definition a use is judged against: for a dynamic allocation a copy of its target that is
moved to where the allocation is. The copy's length stays, `lenght` being another attribute. -/
def deref (v : State) (defStruct : TraceLine) : Option TraceLine :=
  if defStruct.type = ddefType then do
    let newDef ← v.nodes[← defStruct.children[0]?]?
    some { newDef with address := defStruct.address }
  else some defStruct

def usePlace (v : State) (useId : ℤ) : Option ℕ := do
  let useStruct ← v.nodes.find? fun x => x.id = useId
  let first ← useStruct.children[0]?
  if useStruct.children.length > 1 then
    useStruct.children.find? fun p => (v.nodes[p]?.bind TraceLine.cls) = some baseCls
  else some first

def iusePlace (v : State) (useId defId : ℤ) : Option ℕ := do
  let _ ← v.nodes.find? fun x => x.id = useId
  (v.defMap defId)[0]?

def target (v : State) (place : ℕ) : Option TraceLine := do v.deref (← v.nodes[place]?)

def onUse (v : State) (idVar : ℤ × ℤ) (endAddr : ℤ) : Option Bool := do
  (← v.target (← v.usePlace idVar.1)).checkUse endAddr idVar.2

def onIuse (v : State) (useVar defVar : ℤ × ℤ) (endAddr : ℤ) : Option Bool := do
  (← v.target (← v.iusePlace useVar.1 defVar.1)).checkUse endAddr defVar.2

end State

def iuseType : Text := ['I', '-', 'U', 'S', 'E']

def number (b : ℕ) (entry : List Text) (k : ℕ) : Option ℤ := entry[k]?.bind (readInt b)

/-- One round of the loop of `verify_input`, with the result of `check_use` if it is called. An
entry of another type that has `USE` in its name would be checked with the variables of an earlier
round; no such entry is ever sent. -/
def State.verifyEntry (v : State) (entry : List Text) : Option (State × Option Bool) := do
  let kind ← entry[0]?
  if kind = defType then
    let v' ← v.onDef (getIdVar (← number 10 entry 1)) (← number 16 entry 2)
    some (v', none)
  else if kind = ddefType then
    let v' ← v.onDdef (getIdVar (← number 10 entry 1)) (← number 16 entry 2) (← number 10 entry 3)
    some (v', none)
  else if kind = useType then
    let violation ← v.onUse (getIdVar (← number 10 entry 1)) (← number 16 entry 2)
    some (v, some violation)
  else if kind = iuseType then
    let violation ← v.onIuse (getIdVar (← number 10 entry 2)) (getIdVar (← number 10 entry 1))
      (← number 16 entry 3)
    some (v, some violation)
  else if occurs useType kind then none
  else some (v, none)

def State.verifyEntries (v : State) : List (List Text) → Option (State × List (Option Bool))
  | [] => some (v, [])
  | entry :: entries => do
    let (v', violation) ← v.verifyEntry entry
    let (v'', violations) ← v'.verifyEntries entries
    some (v'', violation :: violations)

def formattedTrace (trace : Text) : List (List Text) :=
  (((strip trace).splitOn '\n').filter (· ≠ [])).map fun line => (line.splitOn '|').map strip

/-- `verify_input`: the state after the trace, and for each line the result of its check. -/
def State.verifyInput (v : State) (trace : Text) : Option (State × List (Option Bool)) :=
  v.verifyEntries (formattedTrace trace)

def State.verifyRecord (v : State) : Record → Option (State × Option Bool)
  | .defRec id addr => do some (← v.onDef (getIdVar id.toNat) addr.toNat, none)
  | .ddefRec id addr size => do some (← v.onDdef (getIdVar id.toNat) addr.toNat size.toNat, none)
  | .useRec id addr => do some (v, some (← v.onUse (getIdVar id.toNat) addr.toNat))
  | .iuseRec use defn addr => do
    some (v, some (← v.onIuse (getIdVar use.toInt) (getIdVar defn.toInt) addr.toNat))

def recordFields : Record → List Text
  | .defRec id addr => [defType, word05u id, word08x addr]
  | .ddefRec id addr size => [ddefType, word05u id, word08x addr, word05u size]
  | .useRec id addr => [useType, word05u id, word08x addr]
  | .iuseRec use defn addr => [iuseType, word05d defn, word05d use, word08x addr]

lemma recordLine_eq (r : Record) : recordLine r = Host.bar.intercalate (recordFields r) := by
  cases r <;>
    simp only [recordLine, recordFields, List.intercalate_cons_cons, List.intercalate_singleton,
      List.append_assoc] <;> rfl

lemma word05u_spec (w : Word) :
    Trimmed (word05u w) ∧ word05u w ≠ [] ∧ ∀ c, digitValue c = none → c ∉ word05u w :=
  ⟨trimmed_zeroPadded (by decide) (by decide) 5 _, zeroPadded_ne_nil _ _ _,
    fun _ hc => not_mem_zeroPadded (by decide) (by decide) hc 5 _⟩

lemma word08x_spec (w : Word) :
    Trimmed (word08x w) ∧ word08x w ≠ [] ∧ ∀ c, digitValue c = none → c ∉ word08x w :=
  ⟨trimmed_zeroPadded (by decide) (by decide) 8 _, zeroPadded_ne_nil _ _ _,
    fun _ hc => not_mem_zeroPadded (by decide) (by decide) hc 8 _⟩

lemma word05d_spec (w : Word) :
    Trimmed (word05d w) ∧ word05d w ≠ [] ∧ ∀ c, digitValue c = none → c ≠ '-' → c ∉ word05d w := by
  refine ⟨trimmed_zeroPaddedInt 5 _, ?_, fun _ hc hm => not_mem_zeroPaddedInt hc hm 5 _⟩
  rw [word05d]
  cases w.toInt with
  | ofNat n => exact zeroPadded_ne_nil _ _ _
  | negSucc n => exact List.cons_ne_nil _ _

lemma recordFields_spec (r : Record) :
    ∀ f ∈ recordFields r, Trimmed f ∧ f ≠ [] ∧ '|' ∉ f ∧ '\n' ∉ f := by
  have hbar : digitValue '|' = none := by decide
  have hline : digitValue '\n' = none := by decide
  have hu : ∀ w, Trimmed (word05u w) ∧ word05u w ≠ [] ∧ '|' ∉ word05u w ∧ '\n' ∉ word05u w := by
    intro w
    obtain ⟨ht, hne, hm⟩ := word05u_spec w
    exact ⟨ht, hne, hm _ hbar, hm _ hline⟩
  have hx : ∀ w, Trimmed (word08x w) ∧ word08x w ≠ [] ∧ '|' ∉ word08x w ∧ '\n' ∉ word08x w := by
    intro w
    obtain ⟨ht, hne, hm⟩ := word08x_spec w
    exact ⟨ht, hne, hm _ hbar, hm _ hline⟩
  have hd : ∀ w, Trimmed (word05d w) ∧ word05d w ≠ [] ∧ '|' ∉ word05d w ∧ '\n' ∉ word05d w := by
    intro w
    obtain ⟨ht, hne, hm⟩ := word05d_spec w
    exact ⟨ht, hne, hm _ hbar (by decide), hm _ hline (by decide)⟩
  have htag : ∀ t ∈ [defType, ddefType, useType, iuseType],
      Trimmed t ∧ t ≠ [] ∧ '|' ∉ t ∧ '\n' ∉ t := by decide
  intro f hf
  cases r with
  | defRec id addr =>
    simp only [recordFields, List.mem_cons, List.not_mem_nil, or_false] at hf
    rcases hf with rfl | rfl | rfl
    · exact htag _ (by simp)
    · exact hu id
    · exact hx addr
  | ddefRec id addr size =>
    simp only [recordFields, List.mem_cons, List.not_mem_nil, or_false] at hf
    rcases hf with rfl | rfl | rfl | rfl
    · exact htag _ (by simp)
    · exact hu id
    · exact hx addr
    · exact hu size
  | useRec id addr =>
    simp only [recordFields, List.mem_cons, List.not_mem_nil, or_false] at hf
    rcases hf with rfl | rfl | rfl
    · exact htag _ (by simp)
    · exact hu id
    · exact hx addr
  | iuseRec use defn addr =>
    simp only [recordFields, List.mem_cons, List.not_mem_nil, or_false] at hf
    rcases hf with rfl | rfl | rfl | rfl
    · exact htag _ (by simp)
    · exact hd defn
    · exact hd use
    · exact hx addr

lemma recordFields_ne_nil (r : Record) : recordFields r ≠ [] := by cases r <;> simp [recordFields]

lemma recordLine_spec (r : Record) :
    Trimmed (recordLine r) ∧ recordLine r ≠ [] ∧ '\n' ∉ recordLine r := by
  have hf := recordFields_spec r
  rw [recordLine_eq]
  refine ⟨trimmed_intercalate fun f h => ⟨(hf f h).1, (hf f h).2.1⟩, ?_,
    not_mem_intercalate (by decide) fun f h => (hf f h).2.2.2⟩
  obtain ⟨f, fs, he⟩ := List.exists_cons_of_ne_nil (recordFields_ne_nil r)
  rw [he]
  exact intercalate_ne_nil (hf f (by simp [he])).2.1

lemma splitOn_recordLine (r : Record) :
    ((recordLine r).splitOn '|').map strip = recordFields r := by
  have hf := recordFields_spec r
  have hspace : ∀ x ∈ [' '], isSpace x = true := by simp [isSpace]
  rw [recordLine_eq]
  exact map_strip_splitOn_intercalate hspace hspace (by decide) (by decide)
    (recordFields_ne_nil r) fun f h => ⟨(hf f h).1, (hf f h).2.2.1⟩

theorem verifyEntry_recordFields (v : State) (r : Record) :
    v.verifyEntry (recordFields r) = v.verifyRecord r := by
  have hu : ∀ w, readInt 10 (word05u w) = some (w.toNat : ℤ) :=
    fun w => readInt_zeroPadded (by decide) (by decide) 5 _
  have hx : ∀ w, readInt 16 (word08x w) = some (w.toNat : ℤ) :=
    fun w => readInt_zeroPadded (by decide) (by decide) 8 _
  have hd : ∀ w, readInt 10 (word05d w) = some w.toInt := fun w => readInt_zeroPaddedInt 5 _
  cases r with
  | defRec id addr =>
    simp [State.verifyEntry, recordFields, number, hu, hx, State.verifyRecord]
  | ddefRec id addr size =>
    have h1 : ddefType ≠ defType := by decide
    simp [State.verifyEntry, recordFields, number, hu, hx, h1, State.verifyRecord]
  | useRec id addr =>
    have h1 : useType ≠ defType := by decide
    have h2 : useType ≠ ddefType := by decide
    simp [State.verifyEntry, recordFields, number, hu, hx, h1, h2, State.verifyRecord]
  | iuseRec use defn addr =>
    have h1 : iuseType ≠ defType := by decide
    have h2 : iuseType ≠ ddefType := by decide
    have h3 : iuseType ≠ useType := by decide
    simp [State.verifyEntry, recordFields, number, hd, hx, h1, h2, h3, State.verifyRecord]

def State.verifyRecords (v : State) : List Record → Option (State × List (Option Bool))
  | [] => some (v, [])
  | r :: rs => do
    let (v', violation) ← v.verifyRecord r
    let (v'', violations) ← v'.verifyRecords rs
    some (v'', violation :: violations)

def infoLine : Text := ['I', 'N', 'F', 'O']

/-- What `send_trace_to_verifier` sends: the lines of `trace.txt` and a last line. -/
def sentTrace (rs : List Record) : Text := unlines (rs.map recordLine ++ [infoLine])

lemma formattedTrace_sentTrace (rs : List Record) :
    formattedTrace (sentTrace rs) = rs.map recordFields ++ [[infoLine]] := by
  have hinfo : Trimmed infoLine ∧ infoLine ≠ [] ∧ '\n' ∉ infoLine := by decide
  have hls : ∀ l ∈ rs.map recordLine ++ [infoLine], Trimmed l ∧ l ≠ [] ∧ '\n' ∉ l := by
    intro l hl
    rcases List.mem_append.mp hl with hl | hl
    · obtain ⟨r, -, rfl⟩ := List.mem_map.mp hl
      exact recordLine_spec r
    · rwa [List.mem_singleton.mp hl]
  have hfilter : (rs.map recordLine ++ [infoLine]).filter (· ≠ []) = rs.map recordLine ++ [infoLine] :=
    List.filter_eq_self.mpr fun l hl => by simpa using (hls l hl).2.1
  have hsplit : (infoLine.splitOn '|').map strip = [infoLine] := by
    have hs := strip_of_trimmed hinfo.1
    rw [List.splitOn_eq_singleton (by decide), List.map_singleton, hs]
  rw [formattedTrace, sentTrace, splitOn_strip_unlines (by simp) hls, hfilter, List.map_append,
    List.map_map, List.map_singleton, hsplit]
  congr 1
  exact List.map_congr_left fun r _ => splitOn_recordLine r

lemma verifyEntries_recordFields (v : State) (rs : List Record) :
    v.verifyEntries (rs.map recordFields ++ [[infoLine]]) =
      (v.verifyRecords rs).map fun out => (out.1, out.2 ++ [none]) := by
  induction rs generalizing v with
  | nil =>
    have h1 : infoLine ≠ defType ∧ infoLine ≠ ddefType ∧ infoLine ≠ useType ∧
      infoLine ≠ iuseType ∧ occurs useType infoLine = false := by decide
    simp [State.verifyEntries, State.verifyEntry, State.verifyRecords, h1]
  | cons r rs ih =>
    simp only [List.map_cons, List.cons_append, State.verifyEntries, verifyEntry_recordFields,
      State.verifyRecords, ih]
    cases v.verifyRecord r with
    | none => rfl
    | some out =>
      obtain ⟨v', violation⟩ := out
      cases h : v'.verifyRecords rs <;> simp [h]

theorem verifyInput_sentTrace (v : State) (rs : List Record) :
    v.verifyInput (sentTrace rs) = (v.verifyRecords rs).map fun out => (out.1, out.2 ++ [none]) := by
  rw [State.verifyInput, formattedTrace_sentTrace, verifyEntries_recordFields]

end Embedwatch.Verifier
