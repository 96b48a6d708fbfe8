import Embedwatch.Svf.ExportedLines
import Embedwatch.Verifier.Forest

/-! What `trace_parser` makes of a line that `exportTrace` has written. -/

namespace Embedwatch.Svf

open Library.PlainText
open Verifier (TraceLine adefType gdefType sdefType ddefType baseCls defType useType onlyAt evalList
  attrIf traceParser forest childPlaces rootPlaces fatherPlace FathersFirst)

def TraceEntity.info : TraceEntity → Text
  | .input i => oneLine i.text
  | .use u => oneLine u.text
  | .defn (.adef _ node _ _ _) => oneLine node.text
  | .defn (.gdef _ node _ _ _) => oneLine node.text
  | .defn (.ddef _ node _ _) => oneLine node.text
  | .defn (.sdef _ node _ _ _ _) => oneLine node.text

def TraceEntity.fun_ : TraceEntity → Text
  | .use u => u.fun_
  | .input _ | .defn _ => []

def TraceEntity.node (te : TraceEntity) (father : ℤ) (info fun_ : Text) (children : List ℕ) :
    TraceLine :=
  let base : TraceLine :=
    ⟨te.id, [], some father, info, none, fun _ => none, none, none, none, children, fun _ => none⟩
  match te with
  | .input _ => { base with type := inType }
  | .use u => { base with type := u.kind.tag, fun_ := some fun_ }
  | .defn (.adef _ node _ _ bytes) =>
    { base with type := adefType, cls := some (clsText node.dominator), length := onlyAt 0 bytes }
  | .defn (.gdef _ node _ _ bytes) =>
    { base with type := gdefType, cls := some (clsText node.dominator), length := onlyAt 0 bytes }
  | .defn (.ddef _ _ _ _) =>
    { base with type := ddefType, cls := some baseCls, length := onlyAt 0 (-1) }
  | .defn (.sdef _ node _ bytes fields offset) =>
    { base with
      type := sdefType, cls := some (clsText node.dominator), length := onlyAt 0 bytes
      offset := some offset, fields := some fields }

lemma mapM_readInt (fields : List ℤ) :
    (fields.map signedDecimal).mapM (readInt 10) = some fields := by
  induction fields with
  | nil => rfl
  | cons z zs ih =>
    rw [List.map_cons, List.mapM_cons, ih, readInt_signedDecimal]
    rfl

lemma evalList_fieldList (fields : List ℤ) : evalList (fieldList fields) = some fields := by
  have htrim : Trimmed (fieldList fields) := by
    refine ⟨?_, ?_⟩
    · intro c hc
      obtain rfl : '[' = c := Option.some.inj hc
      decide
    · intro c hc
      rw [fieldList, List.getLast?_concat] at hc
      obtain rfl : ']' = c := Option.some.inj hc
      decide
  let inner := List.intercalate [','] (fields.map signedDecimal)
  have hrev : (inner ++ [']']).reverse = ']' :: inner.reverse := by simp
  have hlist : fieldList fields = '[' :: (inner ++ [']']) := rfl
  rw [evalList, strip_of_trimmed htrim, hlist]
  simp only [hrev, List.reverse_eq_nil_iff, List.reverse_reverse]
  cases fields with
  | nil => rfl
  | cons z zs =>
    have hne : inner ≠ [] := intercalate_ne_nil (signedDecimal_ne_nil z)
    have hcomma : ∀ l ∈ (z :: zs).map signedDecimal, ',' ∉ l := by
      intro l hl
      obtain ⟨x, -, rfl⟩ := List.mem_map.mp hl
      exact not_mem_signedDecimal (by decide) (by decide) x
    rw [if_neg hne, List.splitOn_intercalate _ hcomma (List.cons_ne_nil _ _)]
    exact mapM_readInt (z :: zs)

def TraceEntity.fields (te : TraceEntity) (father : ℤ) : List Text := (te.values father).dropLast

lemma values_eq (te : TraceEntity) (father : ℤ) :
    te.values father = te.fields father ++ [te.info] := by
  cases te with
  | defn d => cases d <;> rfl
  | _ => rfl

def TraceEntity.parsedFun (te : TraceEntity) : Text := (te.fun_.splitOn ';').headD []

lemma not_mem_fields {te : TraceEntity} {c : Char} (hc : c = ';' ∨ c = '\n') (h : c ∉ te.fun_)
    (father : ℤ) : ∀ l ∈ te.fields father, c ∉ l := by
  have hdigit : digitValue c = none := by
    rcases hc with rfl | rfl <;> decide
  have hminus : c ≠ '-' := by
    rcases hc with rfl | rfl <;> decide
  have hid : ∀ n, c ∉ decimal n := fun n => not_mem_decimal hdigit n
  have hint : ∀ z, c ∉ signedDecimal z := fun z => not_mem_signedDecimal hdigit hminus z
  have hcls : ∀ b, c ∉ clsText b := by
    intro b
    rcases hc with rfl | rfl <;> cases b <;> decide
  have htags : ∀ l ∈ [inType, suseType, luseType, adefType, gdefType, ddefType, sdefType, baseCls],
      c ∉ l := by
    rcases hc with rfl | rfl <;> decide
  have hlist : ∀ zs, c ∉ fieldList zs := by
    intro zs
    have hinner : c ∉ List.intercalate [','] (zs.map signedDecimal) := by
      apply not_mem_intercalate
      · rcases hc with rfl | rfl <;> decide
      · intro l hl
        obtain ⟨z, -, rfl⟩ := List.mem_map.mp hl
        exact hint z
    have hbrackets : c ∉ ['['] ∧ c ∉ [']'] := by
      rcases hc with rfl | rfl <;> decide
    rw [fieldList, List.mem_append, List.mem_append, not_or, not_or]
    exact ⟨⟨hbrackets.1, hinner⟩, hbrackets.2⟩
  have hnil : ∀ l ∈ ([] : List Text), c ∉ l := by
    intro l hl
    cases hl
  cases te with
  | input i =>
    change ∀ l ∈ [decimal i.id, inType, signedDecimal father], c ∉ l
    simp only [List.forall_mem_cons]
    exact ⟨hid _, htags _ (by simp), hint _, hnil⟩
  | use u =>
    have htag : c ∉ u.kind.tag := by
      cases u.kind <;> exact htags _ (by simp [UseKind.tag])
    change ∀ l ∈ [decimal u.id, u.kind.tag, signedDecimal father, u.fun_], c ∉ l
    simp only [List.forall_mem_cons]
    exact ⟨hid _, htag, hint _, h, hnil⟩
  | defn d =>
    cases d with
    | adef id node alloca type bytes =>
      change ∀ l ∈ [decimal id, adefType, signedDecimal father, clsText node.dominator,
        signedDecimal bytes], c ∉ l
      simp only [List.forall_mem_cons]
      exact ⟨hid _, htags _ (by simp), hint _, hcls _, hint _, hnil⟩
    | gdef id node global type bytes =>
      change ∀ l ∈ [decimal id, gdefType, signedDecimal father, clsText node.dominator,
        signedDecimal bytes], c ∉ l
      simp only [List.forall_mem_cons]
      exact ⟨hid _, htags _ (by simp), hint _, hcls _, hint _, hnil⟩
    | ddef id node call target =>
      change ∀ l ∈ [decimal id, ddefType, signedDecimal father, baseCls, signedDecimal (-1)], c ∉ l
      simp only [List.forall_mem_cons]
      exact ⟨hid _, htags _ (by simp), hint _, htags _ (by simp), hint _, hnil⟩
    | sdef id node type bytes zs offset =>
      change ∀ l ∈ [decimal id, sdefType, signedDecimal father, clsText node.dominator,
        signedDecimal bytes, signedDecimal offset, fieldList zs], c ∉ l
      simp only [List.forall_mem_cons]
      exact ⟨hid _, htags _ (by simp), hint _, hcls _, hint _, hint _, hlist _, hnil⟩

lemma flatMap_splitOn_of_not_mem {ls : List Text} (h : ∀ l ∈ ls, ';' ∉ l) :
    ls.flatMap (List.splitOn ';') = ls := by
  induction ls with
  | nil => rfl
  | cons l ls ih =>
    rw [List.forall_mem_cons] at h
    rw [List.flatMap_cons, List.splitOn_eq_singleton h.1, ih h.2, List.singleton_append]

lemma ofValues_eq {values : List Text} {id : ℤ} {idText type fatherText info : Text} {father : ℤ}
    {cls : Option Text} {length offset : Option ℤ} {fields : Option (List ℤ)} {fun_ : Option Text}
    (h0 : values[0]? = some idText) (hid : readInt 10 idText = some id) (h1 : values[1]? = some type)
    (h2 : values[2]? = some fatherText) (hne : fatherText ≠ [])
    (hfather : readInt 10 fatherText = some father) (hinfo : values.getLast? = some info)
    (hcls : attrIf (occurs defType type) values[3]? = some cls)
    (hlength : attrIf (occurs defType type) (values[4]?.bind (readInt 10)) = some length)
    (hoffset : attrIf (type = sdefType) (values[5]?.bind (readInt 10)) = some offset)
    (hfields : attrIf (type = sdefType) (values[6]?.bind evalList) = some fields)
    (hfun : attrIf (occurs useType type) values[3]? = some fun_) :
    TraceLine.ofValues values = some ⟨id, type, some father, info, cls,
      (length.map (onlyAt 0)).getD fun _ => none, offset, fields, fun_, [], fun _ => none⟩ := by
  have hsome : attrIf (decide (fatherText ≠ [])) (readInt 10 fatherText) = some (some father) := by
    rw [attrIf, if_pos (decide_eq_true hne), hfather]
    rfl
  rw [TraceLine.ofValues, h0, h1, h2, hinfo]
  simp only [Option.bind_eq_bind, Option.bind_some, hid, hsome, hcls, hlength, hoffset, hfields, hfun]

lemma ofValues_node (te : TraceEntity) (father : ℤ) {ps : List Text} {info : Text}
    (hps : ps.getLast? = some info) :
    TraceLine.ofValues ((te.fields father).flatMap (List.splitOn ';') ++ ps) =
      some (te.node father info te.parsedFun []) := by
  have hlast : ∀ l, (l ++ ps).getLast? = some info := by
    intro l
    rw [List.getLast?_append, hps]
    rfl
  have hsome : ∀ z, (readInt 10 (signedDecimal z)).map some = some (some z) := fun z =>
    congrArg (Option.map some) (readInt_signedDecimal z)
  cases te with
  | input i =>
    rw [flatMap_splitOn_of_not_mem (not_mem_fields (Or.inl rfl) List.not_mem_nil father)]
    exact (ofValues_eq rfl (readInt_decimal _) rfl rfl (signedDecimal_ne_nil _)
      (readInt_signedDecimal _) (hlast _) rfl rfl rfl rfl rfl).trans rfl
  | use u =>
    have hbefore : ∀ l ∈ [decimal u.id, u.kind.tag, signedDecimal father], ';' ∉ l := by
      intro l hl
      exact @not_mem_fields (.use { u with fun_ := [] }) ';' (Or.inl rfl) List.not_mem_nil father l
        (List.mem_append_left [[]] hl)
    have hvalues : (TraceEntity.fields (.use u) father).flatMap (List.splitOn ';') =
        [decimal u.id, u.kind.tag, signedDecimal father] ++ u.fun_.splitOn ';' := by
      change ([decimal u.id, u.kind.tag, signedDecimal father] ++ [u.fun_]).flatMap _ = _
      rw [List.flatMap_append, flatMap_splitOn_of_not_mem hbefore, List.flatMap_singleton]
    obtain ⟨q, qs, hq⟩ := List.exists_cons_of_ne_nil (List.splitOn_ne_nil ';' u.fun_)
    have hfun : TraceEntity.parsedFun (.use u) = q := by
      change (u.fun_.splitOn ';').headD [] = q
      rw [hq]
      rfl
    rw [hvalues, hq, hfun]
    cases hk : u.kind with
    | suse =>
      refine (ofValues_eq rfl (readInt_decimal _) rfl rfl (signedDecimal_ne_nil _)
        (readInt_signedDecimal _) (hlast _) rfl rfl rfl rfl rfl).trans ?_
      simp only [TraceEntity.node, hk]
      rfl
    | luse =>
      refine (ofValues_eq rfl (readInt_decimal _) rfl rfl (signedDecimal_ne_nil _)
        (readInt_signedDecimal _) (hlast _) rfl rfl rfl rfl rfl).trans ?_
      simp only [TraceEntity.node, hk]
      rfl
  | defn d =>
    rw [flatMap_splitOn_of_not_mem (not_mem_fields (Or.inl rfl) List.not_mem_nil father)]
    cases d with
    | adef id node alloca type bytes =>
      exact (ofValues_eq rfl (readInt_decimal _) rfl rfl (signedDecimal_ne_nil _)
        (readInt_signedDecimal _) (hlast _) rfl (by exact hsome bytes) rfl rfl rfl).trans rfl
    | gdef id node global type bytes =>
      exact (ofValues_eq rfl (readInt_decimal _) rfl rfl (signedDecimal_ne_nil _)
        (readInt_signedDecimal _) (hlast _) rfl (by exact hsome bytes) rfl rfl rfl).trans rfl
    | ddef id node call target =>
      exact (ofValues_eq rfl (readInt_decimal _) rfl rfl (signedDecimal_ne_nil _)
        (readInt_signedDecimal _) (hlast _) rfl (by exact hsome (-1)) rfl rfl rfl).trans rfl
    | sdef id node type bytes zs offset =>
      exact (ofValues_eq rfl (readInt_decimal _) rfl rfl (signedDecimal_ne_nil _)
        (readInt_signedDecimal _) (hlast _) rfl (by exact hsome bytes)
        (by exact hsome offset) (by exact congrArg (Option.map some) (evalList_fieldList zs))
        rfl).trans rfl

def Line.raw (line : Line) : Text :=
  tabs line.ident ++ List.intercalate [';'] (line.te.values line.father)

lemma exportTrace_eq_unlines (trace : List TraceEntity) :
    exportTrace trace = unlines ((exportedLines trace).map Line.raw) := by
  rw [exportTrace_eq, unlines, List.flatMap_map]
  apply List.flatMap_congr
  intro line _
  rw [Line.text, Line.raw, TraceEntity.traceLine, row, List.append_assoc]

lemma fields_eq_cons (te : TraceEntity) (father : ℤ) :
    ∃ fs, te.fields father = decimal te.id :: fs := by
  cases te with
  | defn d => cases d <;> exact ⟨_, rfl⟩
  | _ => exact ⟨_, rfl⟩

lemma strip_raw (line : Line) : strip line.raw = List.intercalate [';']
    (line.te.fields line.father ++ [line.te.info.rdropWhile isSpace]) := by
  obtain ⟨fs, hfs⟩ := fields_eq_cons line.te line.father
  have hne : line.te.fields line.father ≠ [] := by
    rw [hfs]
    exact List.cons_ne_nil _ _
  let body := List.intercalate [';'] (line.te.fields line.father)
  have hid := decimal_ne_nil line.te.id
  have hraw : line.raw = tabs line.ident ++ (body ++ ';' :: line.te.info) := by
    rw [Line.raw, values_eq, intercalate_concat _ hne]
  have htabs : ∀ c ∈ tabs line.ident, isSpace c = true := by
    intro c hc
    rw [List.eq_of_mem_replicate hc]
    decide
  have hhead : ∀ c ∈ (body ++ ';' :: line.te.info).head?, isSpace c = false := by
    intro c hc
    have hbody : body ≠ [] := by
      change List.intercalate [';'] (line.te.fields line.father) ≠ []
      rw [hfs]
      exact intercalate_ne_nil hid
    have hb : body.head? = (decimal line.te.id).head? := by
      change (List.intercalate [';'] (line.te.fields line.father)).head? = _
      rw [hfs, head?_intercalate _ _ hid]
    rw [List.head?_append_of_ne_nil _ hbody, hb, decimal_eq_zeroPadded] at hc
    exact isSpace_eq_false_of_digit
      (digit_of_mem_zeroPadded (by decide) (by decide) (List.mem_of_mem_head? hc))
  have hcons : (';' :: line.te.info).rdropWhile isSpace = ';' :: line.te.info.rdropWhile isSpace :=
    rdropWhile_cons_of_neg (by decide) _
  rw [strip, hraw, List.dropWhile_append_of_pos htabs, dropWhile_eq_self_of_head hhead,
    rdropWhile_append_of_ne_nil (by rw [hcons]; exact List.cons_ne_nil _ _), hcons,
    intercalate_concat _ hne]

def TraceEntity.parsedInfo (te : TraceEntity) : Text :=
  (((te.info.rdropWhile isSpace).splitOn ';').getLast?).getD []

def Line.parsed (line : Line) : TraceLine :=
  line.te.node line.father line.te.parsedInfo line.te.parsedFun []

theorem ofLine_raw (line : Line) : TraceLine.ofLine (strip line.raw) = some line.parsed := by
  have hlast : ((line.te.info.rdropWhile isSpace).splitOn ';').getLast? =
      some line.te.parsedInfo := by
    rw [TraceEntity.parsedInfo, List.getLast?_eq_some_getLast (List.splitOn_ne_nil _ _)]
    rfl
  rw [strip_raw, TraceLine.ofLine, splitOn_intercalate_flatMap _ (by simp), List.flatMap_append,
    List.flatMap_singleton]
  exact ofValues_node line.te line.father hlast

lemma strip_raw_ne_nil (line : Line) : strip line.raw ≠ [] := by
  obtain ⟨fs, hfs⟩ := fields_eq_cons line.te line.father
  rw [strip_raw, hfs]
  exact intercalate_ne_nil (decimal_ne_nil _)

lemma not_mem_oneLine (t : Text) : '\n' ∉ oneLine t := by
  intro h
  obtain ⟨c, -, hc⟩ := List.mem_map.mp h
  split at hc
  · exact absurd hc (by decide)
  · rename_i hne
    exact hne hc

lemma info_eq_oneLine (te : TraceEntity) : ∃ t, te.info = oneLine t := by
  cases te with
  | defn d => cases d <;> exact ⟨_, rfl⟩
  | _ => exact ⟨_, rfl⟩

lemma not_mem_raw {line : Line} (h : '\n' ∉ line.te.fun_) : '\n' ∉ line.raw := by
  have htabs : '\n' ∉ tabs line.ident := by
    intro hc
    exact absurd (List.eq_of_mem_replicate hc) (by decide)
  have hvalues : '\n' ∉ List.intercalate [';'] (line.te.values line.father) := by
    apply not_mem_intercalate (by decide)
    intro l hl
    rw [values_eq] at hl
    rcases List.mem_append.mp hl with hl | hl
    · exact not_mem_fields (Or.inr rfl) h line.father l hl
    · obtain ⟨t, ht⟩ := info_eq_oneLine line.te
      rw [List.mem_singleton.mp hl, ht]
      exact not_mem_oneLine t
  rw [Line.raw, List.mem_append, not_or]
  exact ⟨htabs, hvalues⟩

lemma mem_intercalate {c : Char} {s l : Text} {ls : List Text} (hl : l ∈ ls) (hc : c ∈ l) :
    c ∈ s.intercalate ls := by
  induction ls with
  | nil => cases hl
  | cons m ls ih =>
    cases ls with
    | nil =>
      rw [List.intercalate_singleton]
      rwa [List.mem_singleton.mp hl] at hc
    | cons m' ls =>
      rw [List.intercalate_cons_cons, List.mem_append, List.mem_append]
      rcases List.mem_cons.mp hl with rfl | hl
      · exact Or.inl (Or.inl hc)
      · exact Or.inr (ih hl)

lemma mem_strip_raw {line : Line} (h : '\n' ∈ line.te.fun_) : '\n' ∈ strip line.raw := by
  rw [strip_raw]
  apply mem_intercalate (List.mem_append_left _ _) h
  obtain ⟨te, father, ident, parent⟩ := line
  cases te with
  | use u =>
    change u.fun_ ∈ [decimal u.id, u.kind.tag, signedDecimal father, u.fun_]
    simp
  | input i => cases h
  | defn d => cases h

end Embedwatch.Svf
