import Embedwatch.Library.Lookup
import Embedwatch.Svf.ValueMap
import Embedwatch.Verifier.Reports

/-! The module that `exportTrace` annotates, as LLVM prints it, and what the verifier's search for a
number finds in it: the values that have the number in their metadata. -/

namespace Embedwatch.Verifier

open Library.PlainText Library.Lookup
open Svf (Value Metadata ValueMap TraceEntity valueMap exportMetadata exportTrace)

def metadataOf (md : Metadata) (kind : Text) (value : Value) : Option Text :=
  if kind = zdef then md.zdef value
  else if kind = zsuse then md.zsuse value
  else if kind = zluse then md.zluse value
  else none

def nodeText (n : ℕ) : Text := '!' :: decimal n

def nodeLine (n : ℕ) (s : Text) : Text :=
  nodeText n ++ [' ', '=', ' ', '!', '\x7b', '!', '"'] ++ s ++ ['"', '\x7d']

def ShowsTag (number : Text → ℕ) (kind t : Text) : Option Text → Prop
  | none => occurs kind t = false
  | some s => ∃ pre post, t = pre ++ ',' :: ' ' :: '!' :: (kind ++ ' ' :: (nodeText (number s) ++ post)) ∧
      occurs kind pre = false ∧ (post = [] ∨ ∃ rest, post = ',' :: ' ' :: rest)

def Shows (number : Text → ℕ) (md : Metadata) (value : Value) (t : Text) : Prop :=
  ∀ kind ∈ metadataKinds, ShowsTag number kind t (metadataOf md kind value)

structure ShowsFunction (number : Text → ℕ) (md : Metadata) (values : List Value)
    (f : PrintedFunction) : Prop where
  instruction : ∀ value ∈ values, (∃ kind ∈ metadataKinds, metadataOf md kind value ≠ none) →
    ∃ l ∈ lines f.text, l ∈ f.instructions ∧ Shows number md value l
  line : ∀ l ∈ lines f.text, (∃ value ∈ values, Shows number md value l) ∨
    ∀ kind ∈ metadataKinds, occurs kind l = false

structure ShowsModule (number : Text → ℕ) (md : Metadata) (globals : List Value)
    (functions : List (List Value)) (m : PrintedModule) : Prop where
  globalTexts : List.Forall₂ (Shows number md) globals m.globals
  functionTexts : List.Forall₂ (ShowsFunction number md) functions m.functions
  node : ∀ value ∈ globals ++ functions.flatten, ∀ kind ∈ metadataKinds, ∀ s,
    metadataOf md kind value = some s → ∀ line, (line ∈ lines m.text ∧
      occurs (nodeText (number s) ++ [' ', '=']) line = true ↔ line = nodeLine (number s) s)

def Numbered (md : Metadata) (id : ℤ) (values : List Value) : Prop :=
  ∃ value ∈ values, ∃ kind ∈ metadataKinds, ∃ s, metadataOf md kind value = some s ∧
    occurs (signedDecimal id) s = true

lemma fromIndex_append {sub pre : Text} {c : Char} (hpre : occurs sub pre = false) (hc : c ∉ sub)
    (t : Text) : fromIndex sub (pre ++ c :: t) = fromIndex sub t := by
  rw [← Bool.not_eq_true, occurs_iff_isInfix] at hpre
  induction pre with
  | nil =>
    have hno : sub.isPrefixOf (c :: t) = false := by
      rw [← Bool.not_eq_true, List.isPrefixOf_iff_prefix, ← List.nil_append (c :: t),
        prefix_append_cons_iff hc, List.prefix_nil]
      rintro rfl
      exact hpre List.nil_infix
    rw [fromIndex, List.nil_append, List.tails_cons, List.find?_cons_of_neg (by rw [hno]; exact Bool.false_ne_true)]
    rfl
  | cons d pre ih =>
    rw [List.infix_cons_iff, not_or] at hpre
    have hno : sub.isPrefixOf (d :: (pre ++ c :: t)) = false := by
      rw [← Bool.not_eq_true, List.isPrefixOf_iff_prefix, ← List.cons_append,
        prefix_append_cons_iff hc]
      exact hpre.1
    rw [← ih hpre.2, fromIndex, List.cons_append, List.tails_cons,
      List.find?_cons_of_neg (by rw [hno]; exact Bool.false_ne_true)]
    rfl

lemma fromIndex_self (sub t : Text) : fromIndex sub (sub ++ t) = some (sub ++ t) := by
  have hpre : sub.isPrefixOf (sub ++ t) = true :=
    List.isPrefixOf_iff_prefix.mpr (List.prefix_append sub t)
  rw [fromIndex]
  cases h : sub ++ t with
  | nil =>
    rw [h] at hpre
    exact List.find?_cons_of_pos hpre
  | cons c cs =>
    rw [h] at hpre
    exact List.find?_cons_of_pos hpre

lemma fromIndex_eq_none {sub t : Text} (h : occurs sub t = false) : fromIndex sub t = none := by
  rw [fromIndex, List.find?_eq_none]
  rw [occurs, List.any_eq_false] at h
  exact h

lemma nodeName_eq_none {kind t : Text} (h : occurs kind t = false) : nodeName kind t = none := by
  rw [nodeName, fromIndex_eq_none h]
  rfl

lemma kinds_spec : ∀ kind ∈ metadataKinds, kind ≠ [] ∧ ',' ∉ kind ∧ ' ' ∉ kind ∧ '!' ∉ kind := by
  decide

lemma nodeText_spec (n : ℕ) : (∀ c ∈ nodeText n, isSpace c = false) ∧ ',' ∉ nodeText n ∧
    ' ' ∉ nodeText n ∧ '=' ∉ nodeText n := by
  have hdigit : ∀ c ∈ decimal n, (digitValue c).isSome := by
    rw [decimal_eq_zeroPadded]
    intro c hc
    exact digit_of_mem_zeroPadded (by decide) (by decide) hc
  have hnot : ∀ c, digitValue c = none → c ≠ '!' → c ∉ nodeText n := by
    intro c hc hne hmem
    rcases List.mem_cons.mp hmem with rfl | hmem
    · exact hne rfl
    · exact not_mem_decimal hc n hmem
  refine ⟨?_, hnot _ (by decide) (by decide), hnot _ (by decide) (by decide),
    hnot _ (by decide) (by decide)⟩
  intro c hc
  rcases List.mem_cons.mp hc with rfl | hc
  · decide
  · exact isSpace_eq_false_of_digit (hdigit c hc)

lemma nodeName_of_showsTag {number : Text → ℕ} {kind t s : Text} (hkind : kind ∈ metadataKinds)
    (h : ShowsTag number kind t (some s)) : nodeName kind t = some (nodeText (number s)) := by
  obtain ⟨pre, post, rfl, hpre, hpost⟩ := h
  obtain ⟨hne, hcomma, hspace, hmark⟩ := kinds_spec kind hkind
  obtain ⟨hblank, hncomma, hnspace, -⟩ := nodeText_spec (number s)
  have hnil : occurs kind [] = false := occurs_eq_false_of_not_mem hne (by simp)
  have hindex := fromIndex_append hpre hcomma
    (' ' :: '!' :: (kind ++ ' ' :: (nodeText (number s) ++ post)))
  have hindex₂ := fromIndex_append hnil hspace ('!' :: (kind ++ ' ' :: (nodeText (number s) ++ post)))
  have hindex₃ := fromIndex_append hnil hmark (kind ++ ' ' :: (nodeText (number s) ++ post))
  rw [List.nil_append] at hindex₂ hindex₃
  have hname : ∀ {word}, strip word = word →
      word.rdropWhile (fun c => decide (c = ',')) = nodeText (number s) →
      (some ((strip word).rdropWhile fun c => decide (c = ','))) = some (nodeText (number s)) := by
    intro word hstrip hdrop
    rw [hstrip, hdrop]
  have hself : (nodeText (number s)).rdropWhile (fun c => decide (c = ',')) =
      nodeText (number s) := by
    rw [List.rdropWhile_eq_self_iff]
    intro hnonempty hlast
    apply hncomma
    rw [← of_decide_eq_true hlast]
    exact List.getLast_mem hnonempty
  rw [nodeName, hindex, hindex₂, hindex₃, fromIndex_self, Option.bind_eq_bind, Option.bind_some,
    List.splitOn_append_cons_self_of_not_mem hspace]
  rcases hpost with rfl | ⟨rest, rfl⟩
  · rw [List.append_nil, List.splitOn_eq_singleton hnspace]
    exact hname (strip_of_trimmed (trimmed_of_forall hblank)) hself
  · have hword : ' ' ∉ nodeText (number s) ++ [','] := by
      simp [hnspace]
    have hsplit : nodeText (number s) ++ ',' :: ' ' :: rest =
        (nodeText (number s) ++ [',']) ++ ' ' :: rest := by simp
    rw [hsplit, List.splitOn_append_cons_self_of_not_mem hword]
    apply hname
    · apply strip_of_trimmed
      apply trimmed_of_forall
      intro c hc
      rcases List.mem_append.mp hc with hc | hc
      · exact hblank c hc
      · rw [List.mem_singleton.mp hc]
        decide
    · rw [rdropWhile_append_of_pos (by simp)]
      exact hself

lemma shows_of_single {number : Text → ℕ} {md : Metadata} {value : Value} {k s : Text} (pre : Text)
    (hmd : ∀ kind ∈ metadataKinds, metadataOf md kind value = if kind = k then some s else none)
    (hpre : occurs k pre = false)
    (hno : ∀ kind ∈ metadataKinds, kind ≠ k →
      occurs kind (pre ++ ',' :: ' ' :: '!' :: (k ++ ' ' :: nodeText (number s))) = false) :
    Shows number md value (pre ++ ',' :: ' ' :: '!' :: (k ++ ' ' :: nodeText (number s))) := by
  intro kind hkind
  rw [hmd kind hkind]
  by_cases hk : kind = k
  · subst hk
    rw [if_pos rfl]
    exact ⟨pre, [], by rw [List.append_nil], hpre, Or.inl rfl⟩
  · rw [if_neg hk]
    exact hno kind hkind hk

variable {number : Text → ℕ} {md : Metadata} {globals : List Value} {functions : List (List Value)}
  {m : PrintedModule} {id : ℤ}

lemma isNodeOf_nodeLine {s : Text} (hs : '=' ∉ s) :
    isNodeOf id (nodeText (number s)) (nodeLine (number s) s) = occurs (signedDecimal id) s := by
  have hnode : occurs (nodeText (number s) ++ [' ', '=']) (nodeLine (number s) s) = true := by
    rw [occurs_iff_isInfix]
    refine ⟨[], [' ', '!', '\x7b', '!', '"'] ++ s ++ ['"', '\x7d'], ?_⟩
    simp [nodeLine]
  have hsplit : nodeLine (number s) s = (nodeText (number s) ++ [' ']) ++ '=' ::
      ([' ', '!', '\x7b', '!', '"'] ++ s ++ ['"', '\x7d']) := by
    simp [nodeLine]
  have hleft : '=' ∉ nodeText (number s) ++ [' '] := by
    have hne := (nodeText_spec (number s)).2.2.2
    simp [hne]
  have hright : '=' ∉ [' ', '!', '\x7b', '!', '"'] ++ s ++ ['"', '\x7d'] := by
    simp [hs]
  have hfield : ((nodeLine (number s) s).splitOn '=')[1]? =
      some ([' ', '!', '\x7b', '!', '"'] ++ s ++ ['"', '\x7d']) := by
    rw [hsplit, List.splitOn_append_cons_self_of_not_mem hleft, List.splitOn_eq_singleton hright]
    rfl
  have hborder : ∀ c ∈ [' ', '!', '\x7b', '"', '\x7d'], c ∉ signedDecimal id := by
    have hdigit : ∀ c ∈ [' ', '!', '\x7b', '"', '\x7d'], digitValue c = none ∧ c ≠ '-' := by
      simp [digitValue]
    intro c hc
    exact not_mem_signedDecimal (hdigit c hc).1 (hdigit c hc).2 id
  -- none of the characters around the text is one of the number
  have hpad : occurs (signedDecimal id) ([' ', '!', '\x7b', '!', '"'] ++ s ++ ['"', '\x7d']) =
      occurs (signedDecimal id) s := by
    have hbefore : [' ', '!', '\x7b', '!', '"'] ⊆ [' ', '!', '\x7b', '"', '\x7d'] := by decide
    have hafter : ['"', '\x7d'] ⊆ [' ', '!', '\x7b', '"', '\x7d'] := by decide
    exact occurs_surrounded (signedDecimal_ne_nil id) (fun c hc => hborder c (hbefore hc))
      (fun c hc => hborder c (hafter hc)) s
  rw [isNodeOf, hnode, hfield, Option.map_some, Option.getD_some, hpad, Bool.true_and]

lemma tagged_iff {value : Value} {t : Text} (hshows : Shows number md value t)
    (hnode : ∀ kind ∈ metadataKinds, ∀ s, metadataOf md kind value = some s → '=' ∉ s ∧
      ∀ line, (line ∈ lines m.text ∧ occurs (nodeText (number s) ++ [' ', '=']) line = true ↔
        line = nodeLine (number s) s)) :
    Tagged m id t ↔ ∃ kind ∈ metadataKinds, ∃ s, metadataOf md kind value = some s ∧
      occurs (signedDecimal id) s = true := by
  apply exists_congr
  intro kind
  apply and_congr_right
  intro hkind
  have htag := hshows kind hkind
  cases hmd : metadataOf md kind value with
  | none =>
    rw [hmd] at htag
    simp [nodeName_eq_none htag]
  | some s =>
    rw [hmd] at htag
    obtain ⟨hs, hline⟩ := hnode kind hkind s hmd
    simp only [nodeName_of_showsTag hkind htag, Option.some.injEq, exists_eq_left']
    rw [← @isNodeOf_nodeLine number id s hs]
    constructor
    · rintro ⟨line, hmem, h⟩
      obtain rfl := (hline line).mp ⟨hmem, (Bool.and_eq_true_iff.mp h).1⟩
      exact h
    · intro h
      exact ⟨nodeLine (number s) s, ((hline _).mpr rfl).1, h⟩

lemma isPrefix_removeTags {t : Text} (ht : '\n' ∉ t) : removeTags t <+: t := by
  have hend : ∀ {t : Text}, '\n' ∉ t → afterLastLine t = some [] := by
    intro t ht
    have hall : t.dropWhile (· ≠ '\n') = [] := by
      rw [List.dropWhile_eq_nil_iff]
      intro c hc
      apply decide_eq_true
      rintro rfl
      exact ht hc
    rw [afterLastLine, hall]
  induction t with
  | nil => exact List.prefix_rfl
  | cons c t ih =>
    rw [List.mem_cons, not_or] at ht
    rw [removeTags]
    split
    · have hrest : '\n' ∉ (t.dropWhile isSpace).drop 3 :=
        fun h => ht.2 ((List.dropWhile_suffix _).subset (List.mem_of_mem_drop h))
      rw [hend hrest]
      exact List.nil_prefix
    · exact List.cons_prefix_cons.mpr ⟨rfl, ih ht.2⟩

lemma occurs_instrText {t : Text} (ht : '\n' ∉ t) : occurs (instrText t) t = true :=
  occurs_iff_isInfix.mpr ((strip_isInfix _).trans (isPrefix_removeTags ht).isInfix)

lemma ShowsModule.tagged_iff (hm : ShowsModule number md globals functions m)
    (hmd : ∀ kind value s, metadataOf md kind value = some s → '=' ∉ s) {value : Value} {t : Text}
    (hvalue : value ∈ globals ++ functions.flatten) (hshows : Shows number md value t) :
    Tagged m id t ↔ ∃ kind ∈ metadataKinds, ∃ s, metadataOf md kind value = some s ∧
      occurs (signedDecimal id) s = true := by
  apply Verifier.tagged_iff hshows
  intro kind hkind s hs
  exact ⟨hmd kind value s hs, hm.node value hvalue kind hkind s hs⟩

lemma ShowsModule.inGlobal_iff (hm : ShowsModule number md globals functions m)
    (hmd : ∀ kind value s, metadataOf md kind value = some s → '=' ∉ s) :
    InGlobal m id ↔ Numbered md id globals := by
  have htag : ∀ value ∈ globals, ∀ t, Shows number md value t → (Tagged m id t ↔ _) :=
    fun value hvalue t hshows => hm.tagged_iff hmd (List.mem_append_left _ hvalue) hshows
  have hall := hm.globalTexts
  constructor
  · rintro ⟨t, ht, htagged⟩
    obtain ⟨value, hvalue, hshows⟩ := exists_left_of_mem hall ht
    exact ⟨value, hvalue, (htag value hvalue t hshows).mp htagged⟩
  · rintro ⟨value, hvalue, h⟩
    obtain ⟨t, ht, hshows⟩ := exists_right_of_mem hall hvalue
    exact ⟨t, ht, (htag value hvalue t hshows).mpr h⟩

lemma ShowsModule.inFunction_iff (hm : ShowsModule number md globals functions m)
    (hmd : ∀ kind value s, metadataOf md kind value = some s → '=' ∉ s) :
    (∃ f ∈ m.functions, InFunction m id f) ↔ Numbered md id functions.flatten := by
  have htag : ∀ value ∈ functions.flatten, ∀ t, Shows number md value t → (Tagged m id t ↔ _) :=
    fun value hvalue t hshows => hm.tagged_iff hmd (List.mem_append_right _ hvalue) hshows
  have hall := hm.functionTexts
  constructor
  · rintro ⟨f, hf, l, hl, htagged, -⟩
    obtain ⟨values, hvalues, hshows⟩ := exists_left_of_mem hall hf
    rcases hshows.line l hl with ⟨value, hvalue, hline⟩ | hno
    · have hmem := List.mem_flatten.mpr ⟨values, hvalues, hvalue⟩
      exact ⟨value, hmem, (htag value hmem l hline).mp htagged⟩
    · obtain ⟨kind, hkind, node, hnode, -⟩ := htagged
      rw [nodeName_eq_none (hno kind hkind)] at hnode
      cases hnode
  · rintro ⟨value, hmem, h⟩
    obtain ⟨values, hvalues, hvalue⟩ := List.mem_flatten.mp hmem
    obtain ⟨f, hf, hshows⟩ := exists_right_of_mem hall hvalues
    have hkinds := h
    obtain ⟨kind, hkind, s, hs, -⟩ := hkinds
    obtain ⟨l, hl, hinstr, hline⟩ := hshows.instruction value hvalue
      ⟨kind, hkind, by rw [hs]; exact Option.some_ne_none s⟩
    exact ⟨f, hf, l, hl, (htag value hmem l hline).mpr h, l, hinstr,
      occurs_instrText (not_mem_of_mem_splitOn hl)⟩

lemma exportMetadata_decimal {trace : List TraceEntity} {map : ValueMap}
    (hmap : map.Perm (valueMap trace)) {kind : Text} {value : Value} {s : Text}
    (hs : metadataOf (exportMetadata map) kind value = some s) : ∃ n, s = decimal n := by
  have hstrings : ∀ elem ∈ map, ∃ n, ∀ s ∈ [elem.2.def_, elem.2.store, elem.2.lib],
      s = [] ∨ s = decimal n := by
    intro elem helem
    have h := ((Svf.mem_valueMap trace elem).mp (hmap.mem_iff.mp helem)).2
    refine ⟨elem.1.id, ?_⟩
    obtain ⟨te, strings⟩ := elem
    cases te with
    | input i => cases h
    | defn d =>
      cases h
      simp [TraceEntity.id]
    | use u =>
      simp only [Svf.stringsOf] at h
      split at h <;> cases h <;> simp [TraceEntity.id]
  have hrun : ∀ (entries : ValueMap) (md : Metadata), (∀ elem ∈ entries, elem ∈ map) →
      (∀ kind value s, metadataOf md kind value = some s → ∃ n, s = decimal n) →
      ∀ kind value s, metadataOf (entries.foldl Svf.attach md) kind value = some s →
        ∃ n, s = decimal n := by
    intro entries
    induction entries with
    | nil =>
      intro md _ hmd
      exact hmd
    | cons elem entries ih =>
      intro md hsub hmd
      rw [List.foldl_cons]
      apply ih _ fun e he => hsub e (List.mem_cons_of_mem _ he)
      intro kind value s hs
      obtain ⟨n, hn⟩ := hstrings elem (hsub elem List.mem_cons_self)
      have hnew : ∀ {t : Text}, t ∈ [elem.2.def_, elem.2.store, elem.2.lib] → t ≠ [] →
          ∃ n, t = decimal n := fun ht hne => ⟨n, (hn _ ht).resolve_left hne⟩
      have hupdate : ∀ {nodes : Value → Option Text} {t : Text} {c : Bool} {w : Value},
          t ∈ [elem.2.def_, elem.2.store, elem.2.lib] →
          (∀ value s, nodes value = some s → ∃ n, s = decimal n) →
          (if t ≠ [] ∧ c = true then Function.update nodes w (some t) else nodes) value = some s →
          ∃ n, s = decimal n := by
        intro nodes t c w ht hnodes hs
        split at hs
        · rename_i hcond
          rw [Function.update_apply] at hs
          split at hs
          · obtain rfl := Option.some.inj hs
            exact hnew ht hcond.1
          · exact hnodes value s hs
        · exact hnodes value s hs
      have hkind := hmd kind
      rw [Svf.attach] at hs
      cases htag : Svf.getTagValue elem.1 with
      | none =>
        rw [htag] at hs
        exact hmd kind value s hs
      | some w =>
        simp only [htag, metadataOf] at hs hkind
        split at hs
        · rename_i hk
          simp only [hk, if_true] at hkind
          exact hupdate (by simp) hkind hs
        · rename_i hk
          simp only [hk, if_false] at hkind
          split at hs
          · rename_i hk'
            simp only [hk', if_true] at hkind
            exact hupdate (by simp) hkind hs
          · rename_i hk'
            simp only [hk', if_false] at hkind
            split at hs
            · rename_i hk''
              simp only [hk'', if_true] at hkind
              exact hupdate (by simp) hkind hs
            · cases hs
  apply hrun map .empty (fun _ he => he) _ kind value s hs
  intro kind value s hs
  rw [metadataOf] at hs
  split at hs
  · cases hs
  · split at hs
    · cases hs
    · split at hs <;> cases hs

theorem violations_printed_iff {trace : List TraceEntity} {map : ValueMap}
    (hmap : map.Perm (valueMap trace)) {v v' : State}
    (hparse : traceParser (exportTrace trace) = some v) {es : List Entry} {cs : List (Option Bool)}
    (hrun : v.verifyAll es = some (v', cs)) (m : PrintedModule) :
    ((∃ reports, v.rounds m es = some (v', reports) ∧ ∀ k : ℕ, cs[k]? = some (some true) →
        ∃ r : Report, reports[k]? = some (some r) ∧ r.isViolation = true) ↔
      ∀ (k : ℕ) e, es[k]? = some e → cs[k]? = some (some true) → Traceable m v e) ∧
    ∀ number globals functions, ShowsModule number (exportMetadata map) globals functions m →
      ∀ id, (InGlobal m id ↔ Numbered (exportMetadata map) id globals) ∧
        ((∃ f ∈ m.functions, InFunction m id f) ↔
          Numbered (exportMetadata map) id functions.flatten) := by
  constructor
  · exact State.rounds_iff (traceParser_parsed hparse).defMap (SameSkeleton.refl v) hrun
  · intro number globals functions hm id
    have hmd : ∀ kind value s, metadataOf (exportMetadata map) kind value = some s → '=' ∉ s := by
      intro kind value s hs
      obtain ⟨n, rfl⟩ := exportMetadata_decimal hmap hs
      exact not_mem_decimal (by decide) n
    exact ⟨hm.inGlobal_iff hmd, hm.inFunction_iff hmd⟩

def storeTrace (object : Svf.Def) : List TraceEntity :=
  [.input ⟨2, ['i'], ⟨0, .call ['r']⟩, [.use ⟨.suse, 3, ['s'], ['f'], ⟨2, .instruction⟩, [object]⟩]⟩]

def dynamicObject : Svf.Def :=
  .ddef 4 ⟨7, ['m'], ⟨1, .call ['m']⟩, false⟩ ⟨1, .call ['m']⟩
    (.adef 5 ⟨8, ['v'], ⟨3, .alloca⟩, false⟩ ⟨3, .alloca⟩ 0 10)

def staticObject : Svf.Def := .adef 4 ⟨7, ['a'], ⟨1, .alloca⟩, false⟩ ⟨1, .alloca⟩ 0 10

def objectLine (op : Text) : Text :=
  ['%', 'p', ' ', '=', ' '] ++ op ++
    [',', ' ', '!', 'z', 'd', 'e', 'f', ' ', '!', '0']

def storeLine : Text :=
  ['s', 't', 'o', 'r', 'e', ' ', '%', 'q'] ++
    [',', ' ', '!', 'z', 's', 'u', 's', 'e', ' ', '!', '1']

def storeFunction (op : Text) : PrintedFunction where
  name := ['f']
  text := objectLine op ++ ['\n'] ++ storeLine
  instructions := [objectLine op, storeLine]

def storeModule (op : Text) : PrintedModule where
  globals := []
  functions := [storeFunction op]
  text := (storeFunction op).text ++ ['\n'] ++ nodeLine 0 ['4'] ++ ['\n'] ++ nodeLine 1 ['3']

def callText : Text := ['c', 'a', 'l', 'l', ' ', 'm']

def allocaText : Text := ['a', 'l', 'l', 'o', 'c', 'a']

def useBehind (defn : Entry) : List Entry := [defn, .use 0x30001 1200]

theorem violation_printed_static : ∃ v v', traceParser (exportTrace (storeTrace staticObject)) = some v ∧
    v.verifyAll (useBehind (.defn 0x40001 1000)) = some (v', [none, some true]) ∧
    ∃ reports, v.rounds (storeModule allocaText) (useBehind (.defn 0x40001 1000)) =
        some (v', reports) ∧ ∀ k : ℕ, [none, some true][k]? = some (some true) →
          ∃ r : Report, reports[k]? = some (some r) ∧ r.isViolation = true := by
  have hrun : ((traceParser (exportTrace (storeTrace staticObject))).bind fun v =>
      (v.verifyAll (useBehind (.defn 0x40001 1000))).map Prod.snd) = some [none, some true] := by
    decide +kernel
  obtain ⟨v, hv, hrun⟩ := Option.bind_eq_some_iff.mp hrun
  obtain ⟨⟨v', cs⟩, hrun, rfl⟩ := Option.map_eq_some_iff.mp hrun
  have hnodes : ((traceParser (exportTrace (storeTrace staticObject))).bind fun v =>
      (v.useStruct (.use 0x30001 1200)).bind fun use => (v.judge (.use 0x30001 1200)).bind fun place =>
        (v.target place).bind fun t => v.nodes[2]?.map fun d =>
          (use.id, t.info, occurs defType d.type, d.info, d.id)) =
            some (3, ['a'], true, ['a'], 4) := by
    decide +kernel
  rw [hv, Option.bind_some] at hnodes
  obtain ⟨use, huse, hnodes⟩ := Option.bind_eq_some_iff.mp hnodes
  obtain ⟨place, hplace, hnodes⟩ := Option.bind_eq_some_iff.mp hnodes
  obtain ⟨t, ht, hnodes⟩ := Option.bind_eq_some_iff.mp hnodes
  obtain ⟨d, hd, hnodes⟩ := Option.map_eq_some_iff.mp hnodes
  simp only [Prod.mk.injEq] at hnodes
  obtain ⟨hid, hinfo, hdef, hdinfo, hdid⟩ := hnodes
  have hglobal : ¬ InGlobal (storeModule allocaText) 3 := by
    rw [← PrintedModule.findGlobal_isSome]
    decide +kernel
  have hfunction : ∀ n ∈ [3, 4], InFunction (storeModule allocaText) n (storeFunction allocaText) := by
    have hfound : ∀ n ∈ [3, 4], ((storeModule allocaText).findInFunction n
        (storeFunction allocaText)).isSome = true := by
      decide +kernel
    intro n hn
    exact PrintedModule.findInFunction_isSome.mp (hfound n hn)
  have hmem : storeFunction allocaText ∈ (storeModule allocaText).functions := List.mem_singleton_self _
  refine ⟨v, v', hv, hrun,
    (violations_printed_iff (List.Perm.refl _) hv hrun (storeModule allocaText)).1.mpr ?_⟩
  intro k e he hc
  have hk : k = 1 := by
    rcases k with _ | _ | k
    · cases hc
    · rfl
    · cases hc
  subst hk
  cases he
  refine ⟨use, place, t, huse, hplace, ht, ⟨?_, _, hmem, ?_⟩, d, List.mem_of_getElem? hd, hdef, ?_,
    Or.inr ⟨_, hmem, ?_⟩⟩
  · rw [hid]
    exact hglobal
  · rw [hid]
    exact hfunction 3 (by simp)
  · rw [hinfo, hdinfo]
  · rw [hdid]
    exact hfunction 4 (by simp)

def nodeNumber (s : Text) : ℕ := if s = ['4'] then 0 else 1

lemma showsModule_dynamic : ShowsModule nodeNumber
    (exportMetadata (valueMap (storeTrace dynamicObject))) []
    [[⟨1, .call ['m']⟩, ⟨2, .instruction⟩]] (storeModule callText) := by
  have hcall : ∀ kind ∈ metadataKinds, metadataOf (exportMetadata (valueMap
      (storeTrace dynamicObject))) kind ⟨1, .call ['m']⟩ =
        if kind = zdef then some ['4'] else none := by
    decide +kernel
  have hstore : ∀ kind ∈ metadataKinds, metadataOf (exportMetadata (valueMap
      (storeTrace dynamicObject))) kind ⟨2, .instruction⟩ =
        if kind = zsuse then some ['3'] else none := by
    decide +kernel
  have hcallLine : Shows nodeNumber (exportMetadata (valueMap (storeTrace dynamicObject)))
      ⟨1, .call ['m']⟩ (objectLine callText) :=
    shows_of_single (['%', 'p', ' ', '=', ' '] ++ callText) hcall (by decide) (by decide +kernel)
  have hstoreLine : Shows nodeNumber (exportMetadata (valueMap (storeTrace dynamicObject)))
      ⟨2, .instruction⟩ storeLine :=
    shows_of_single ['s', 't', 'o', 'r', 'e', ' ', '%', 'q'] hstore (by decide) (by decide +kernel)
  have hlines : lines (storeFunction callText).text = [objectLine callText, storeLine] := by
    decide +kernel
  refine ⟨.nil, .cons ⟨?_, ?_⟩ .nil, ?_⟩
  · intro value hvalue _
    rw [hlines]
    simp only [List.mem_cons, List.not_mem_nil, or_false] at hvalue
    rcases hvalue with rfl | rfl
    · exact ⟨_, List.mem_cons_self, List.mem_cons_self, hcallLine⟩
    · exact ⟨storeLine, by simp, by simp [storeFunction], hstoreLine⟩
  · intro l hl
    rw [hlines] at hl
    simp only [List.mem_cons, List.not_mem_nil, or_false] at hl
    rcases hl with rfl | rfl
    · exact Or.inl ⟨_, List.mem_cons_self, hcallLine⟩
    · exact Or.inl ⟨_, List.mem_cons_of_mem _ List.mem_cons_self, hstoreLine⟩
  · -- the two nodes of the module
    have hnode : ∀ s ∈ [['4'], ['3']], ∀ line, line ∈ lines (storeModule callText).text ∧
        occurs (nodeText (nodeNumber s) ++ [' ', '=']) line = true ↔
          line = nodeLine (nodeNumber s) s := by
      have hfilter : ∀ s ∈ [['4'], ['3']], (lines (storeModule callText).text).filter
          (occurs (nodeText (nodeNumber s) ++ [' ', '='])) = [nodeLine (nodeNumber s) s] := by
        decide +kernel
      intro s hs line
      rw [← List.mem_filter, hfilter s hs, List.mem_singleton]
    intro value hvalue kind hkind s hs
    simp only [List.nil_append, List.flatten_cons, List.flatten_nil, List.append_nil, List.mem_cons,
      List.not_mem_nil, or_false] at hvalue
    apply hnode s
    rcases hvalue with rfl | rfl
    · rw [hcall kind hkind] at hs
      split at hs
      · simp [← Option.some.inj hs]
      · cases hs
    · rw [hstore kind hkind] at hs
      split at hs
      · simp [← Option.some.inj hs]
      · cases hs

theorem violation_not_printed_dynamic : ∃ v v', traceParser (exportTrace (storeTrace dynamicObject)) =
      some v ∧ ShowsModule nodeNumber (exportMetadata (valueMap (storeTrace dynamicObject))) []
        [[⟨1, .call ['m']⟩, ⟨2, .instruction⟩]] (storeModule callText) ∧
    v.verifyAll (useBehind (.ddefn 0x40001 1000 100)) = some (v', [none, some true]) ∧
    v.rounds (storeModule callText) (useBehind (.ddefn 0x40001 1000 100)) =
      some (v', [none, some (.cannotFind ['s'] ['v'])]) := by
  have hrun : ((traceParser (exportTrace (storeTrace dynamicObject))).bind fun v =>
      (v.verifyAll (useBehind (.ddefn 0x40001 1000 100))).bind fun out =>
        (v.rounds (storeModule callText) (useBehind (.ddefn 0x40001 1000 100))).map fun out' =>
          (out.2, out'.2)) = some ([none, some true], [none, some (.cannotFind ['s'] ['v'])]) := by
    decide +kernel
  obtain ⟨v, hv, hrun⟩ := Option.bind_eq_some_iff.mp hrun
  obtain ⟨⟨v', cs⟩, hall, hrun⟩ := Option.bind_eq_some_iff.mp hrun
  obtain ⟨⟨u, reports⟩, hrounds, heq⟩ := Option.map_eq_some_iff.mp hrun
  obtain ⟨rfl, rfl⟩ := Prod.mk.inj heq
  obtain rfl := State.rounds_state hall hrounds
  exact ⟨v, u, hv, showsModule_dynamic, hall, hrounds⟩

end Embedwatch.Verifier
