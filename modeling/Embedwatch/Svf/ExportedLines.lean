import Embedwatch.Svf.Entities

/-! The lines that `exportTrace` writes, and how they are nested. -/

namespace Embedwatch.Svf

open Library.PlainText

structure Line where
  te : TraceEntity
  father : ℤ
  ident : ℕ
  parent : Option ℕ

def Def.lines (d : Def) (father : ℤ) (ident : ℕ) (parent : Option ℕ) (place : ℕ) : List Line :=
  match d with
  | .ddef id node call target =>
    ⟨.defn (.ddef id node call target), father, ident, parent⟩ ::
      target.lines id (ident + 1) (some place) (place + 1)
  | d => [⟨.defn d, father, ident, parent⟩]

def layOut {α : Type*} (f : α → ℕ → List Line) : List α → ℕ → List Line
  | [], _ => []
  | a :: as, place => f a place ++ layOut f as (place + (f a place).length)

def SubObject.lines (father parent : ℕ) (sub : SubObject) (place : ℕ) : List Line :=
  match sub with
  | .use u =>
    ⟨.use u, father, 1, some parent⟩ ::
      layOut (fun d => d.lines u.id 2 (some place)) u.targets (place + 1)
  | .defn d => d.lines father 1 (some parent) place

def TraceEntity.lines (te : TraceEntity) (place : ℕ) : List Line :=
  match te with
  | .input i =>
    ⟨.input i, -1, 0, none⟩ :: layOut (SubObject.lines i.id place) i.subObjects (place + 1)
  | .use u => [⟨.use u, -1, 0, none⟩]
  | .defn d => d.lines (-1) 0 none place

def exportedLines (trace : List TraceEntity) : List Line := layOut TraceEntity.lines trace 0

def Line.text (line : Line) : Text := tabs line.ident ++ line.te.traceLine line.father

lemma layOut_flatMap {α β : Type*} {f : α → ℕ → List Line} {text : Line → List β} {g : α → List β}
    (h : ∀ a place, (f a place).flatMap text = g a) (as : List α) (place : ℕ) :
    (layOut f as place).flatMap text = as.flatMap g := by
  induction as generalizing place with
  | nil => rfl
  | cons a as ih => rw [layOut, List.flatMap_append, h, ih, List.flatMap_cons]

lemma Def.lines_text (d : Def) (father : ℤ) (ident : ℕ) (parent : Option ℕ) (place : ℕ) :
    (d.lines father ident parent place).flatMap Line.text = d.exportEntity father ident := by
  induction d generalizing father ident parent place with
  | ddef id node call target ih =>
    rw [Def.lines, List.flatMap_cons, ih, Def.exportEntity]
    rfl
  | _ => exact List.append_nil _

lemma SubObject.lines_text (father parent : ℕ) (sub : SubObject) (place : ℕ) :
    (sub.lines father parent place).flatMap Line.text =
      (sub.visits father).flatMap fun visit => visit.te.exportEntity visit.father visit.ident := by
  cases sub with
  | use u =>
    rw [SubObject.lines, List.flatMap_cons, layOut_flatMap (fun d p => d.lines_text u.id 2 _ p),
      SubObject.visits, List.flatMap_cons, List.flatMap_map]
    rfl
  | defn d =>
    rw [SubObject.lines, Def.lines_text]
    exact (List.append_nil _).symm

lemma TraceEntity.lines_text (te : TraceEntity) (place : ℕ) :
    (te.lines place).flatMap Line.text =
      te.visits.flatMap fun visit => visit.te.exportEntity visit.father visit.ident := by
  cases te with
  | input i =>
    rw [TraceEntity.lines, List.flatMap_cons,
      layOut_flatMap (fun sub p => sub.lines_text i.id place p), TraceEntity.visits,
      List.flatMap_cons, List.flatMap_assoc]
    rfl
  | use u => rfl
  | defn d =>
    rw [TraceEntity.lines, Def.lines_text]
    exact (List.append_nil _).symm

theorem exportTrace_eq (trace : List TraceEntity) :
    exportTrace trace = (exportedLines trace).flatMap Line.text := by
  rw [exportedLines, layOut_flatMap TraceEntity.lines_text, exportTrace, visits, List.flatMap_assoc]

def Hangs (parent : Option ℕ) (father : ℤ) (place : ℕ) (es : List Line) : Prop :=
  ∀ (i : ℕ) (e : Line), es[i]? = some e → (e.parent = parent ∧ e.father = father) ∨
    ∃ q < i, ∃ e' : Line, es[q]? = some e' ∧ e.parent = some (place + q) ∧ e.father = e'.te.id

lemma Hangs.append {parent : Option ℕ} {father : ℤ} {place : ℕ} {es fs : List Line}
    (hes : Hangs parent father place es) (hfs : Hangs parent father (place + es.length) fs) :
    Hangs parent father place (es ++ fs) := by
  intro i e he
  rcases Nat.lt_or_ge i es.length with hi | hi
  · rw [List.getElem?_append_left hi] at he
    rcases hes i e he with h | ⟨q, hq, e', he', hp, hf⟩
    · exact Or.inl h
    · exact Or.inr ⟨q, hq, e', (List.getElem?_append_left (hq.trans hi)).trans he', hp, hf⟩
  · rw [List.getElem?_append_right hi] at he
    rcases hfs (i - es.length) e he with h | ⟨q, hq, e', he', hp, hf⟩
    · exact Or.inl h
    · refine Or.inr ⟨es.length + q, by omega, e', ?_, ?_, hf⟩
      · rw [List.getElem?_append_right (Nat.le_add_right _ _), Nat.add_sub_cancel_left, he']
      · rw [hp, Nat.add_assoc]

lemma Hangs.cons {parent : Option ℕ} {father : ℤ} {place : ℕ} {e : Line} {es : List Line}
    (hparent : e.parent = parent) (hfather : e.father = father)
    (hes : Hangs (some place) e.te.id (place + 1) es) : Hangs parent father place (e :: es) := by
  intro i e₁ he₁
  cases i with
  | zero =>
    obtain rfl := Option.some.inj he₁
    exact Or.inl ⟨hparent, hfather⟩
  | succ i =>
    rcases hes i e₁ he₁ with ⟨hp, hf⟩ | ⟨q, hq, e', he', hp, hf⟩
    · exact Or.inr ⟨0, i.succ_pos, e, rfl, hp, hf⟩
    · refine Or.inr ⟨q + 1, Nat.succ_lt_succ hq, e', he', ?_, hf⟩
      rw [hp, Nat.add_assoc, Nat.add_comm 1 q]

lemma Hangs.nil {parent : Option ℕ} {father : ℤ} {place : ℕ} : Hangs parent father place [] := by
  intro i e he
  cases he

lemma hangs_layOut {α : Type*} {f : α → ℕ → List Line} {parent : Option ℕ} {father : ℤ}
    (h : ∀ a place, Hangs parent father place (f a place)) (as : List α) (place : ℕ) :
    Hangs parent father place (layOut f as place) := by
  induction as generalizing place with
  | nil => exact Hangs.nil
  | cons a as ih => exact (h a place).append (ih _)

lemma Def.hangs (d : Def) (father : ℤ) (ident : ℕ) (parent : Option ℕ) (place : ℕ) :
    Hangs parent father place (d.lines father ident parent place) := by
  induction d generalizing father ident parent place with
  | ddef id node call target ih => exact Hangs.cons rfl rfl (ih _ _ _ _)
  | _ => exact Hangs.cons rfl rfl Hangs.nil

lemma SubObject.hangs (father parent : ℕ) (sub : SubObject) (place : ℕ) :
    Hangs (some parent) father place (sub.lines father parent place) := by
  cases sub with
  | use u => exact Hangs.cons rfl rfl (hangs_layOut (fun d p => d.hangs _ _ _ p) _ _)
  | defn d => exact d.hangs _ _ _ _

lemma TraceEntity.hangs (te : TraceEntity) (place : ℕ) : Hangs none (-1) place (te.lines place) := by
  cases te with
  | input i => exact Hangs.cons rfl rfl (hangs_layOut (fun sub p => sub.hangs _ _ p) _ _)
  | use u => exact Hangs.cons rfl rfl Hangs.nil
  | defn d => exact d.hangs _ _ _ _

theorem hangs_exportedLines (trace : List TraceEntity) : Hangs none (-1) 0 (exportedLines trace) :=
  hangs_layOut TraceEntity.hangs trace 0

end Embedwatch.Svf
