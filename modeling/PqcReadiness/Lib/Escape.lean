import Mathlib.Data.List.Basic

/-!
# Escaped texts

A text in which an escape symbol makes the symbol behind it ordinary.  `Plain` texts have no
separator that is not escaped, so that what is written between separators can be read again:
the first separator of `first ++ [sep] ++ rest` ends `first` (`Plain.split`), and the texts that
`intercalate` puts together are determined by the result (`plain_intercalate_inj`).
-/

namespace PqcReadiness.Lib.Escape

variable {α : Type*}

/-- No symbol outside an escape is one of the separators, and no escape is left open. -/
inductive Plain (esc : α) (seps : List α) : List α → Prop
  | nil : Plain esc seps []
  | escaped (symbol : α) {rest : List α} (hrest : Plain esc seps rest) :
      Plain esc seps (esc :: symbol :: rest)
  | ordinary {symbol : α} {rest : List α} (hesc : symbol ≠ esc) (hsep : symbol ∉ seps)
      (hrest : Plain esc seps rest) : Plain esc seps (symbol :: rest)

section Plain

variable {esc sep sep' : α} {seps others : List α} {first second rest rest' : List α}

theorem plain_of_forall {text : List α} (hesc : esc ∉ text) (hseps : ∀ symbol ∈ text, symbol ∉ seps) :
    Plain esc seps text := by
  induction text with
  | nil => exact .nil
  | cons symbol rest ih =>
      rw [List.mem_cons, not_or] at hesc
      exact .ordinary (Ne.symm hesc.1) (hseps symbol List.mem_cons_self)
        (ih hesc.2 fun other hother => hseps other (List.mem_cons_of_mem symbol hother))

theorem Plain.append (hfirst : Plain esc seps first) (hsecond : Plain esc seps second) :
    Plain esc seps (first ++ second) := by
  induction hfirst with
  | nil => exact hsecond
  | escaped symbol _ ih => exact .escaped symbol ih
  | ordinary hesc hsep _ ih => exact .ordinary hesc hsep ih

/-- Fewer separators. -/
theorem Plain.mono (hfirst : Plain esc seps first) (hsubset : ∀ symbol ∈ others, symbol ∈ seps) :
    Plain esc others first := by
  induction hfirst with
  | nil => exact .nil
  | escaped symbol _ ih => exact .escaped symbol ih
  | ordinary hesc hsep _ ih => exact .ordinary hesc (fun hmem => hsep (hsubset _ hmem)) ih

/-- The first separator that is not escaped is where the first text ends. -/
theorem Plain.split (hfirst : Plain esc seps first) (hsecond : Plain esc seps second)
    (hsep : sep ∈ seps) (hsep' : sep' ∈ seps) (hesc : esc ∉ seps)
    (heq : first ++ sep :: rest = second ++ sep' :: rest') :
    first = second ∧ sep = sep' ∧ rest = rest' := by
  have hne : ∀ {symbol}, symbol ∈ seps → symbol ≠ esc := by
    rintro symbol hmem rfl
    exact hesc hmem
  induction hfirst generalizing second with
  | nil =>
      cases hsecond with
      | nil => exact ⟨rfl, List.cons.inj heq⟩
      | escaped symbol _ => exact absurd (List.cons.inj heq).1 (hne hsep)
      | ordinary _ hother _ =>
          rw [List.nil_append, List.cons_append] at heq
          exact absurd ((List.cons.inj heq).1 ▸ hsep) hother
  | escaped symbol _ ih =>
      cases hsecond with
      | nil => exact absurd (List.cons.inj heq).1.symm (hne hsep')
      | escaped other hsecond =>
          obtain ⟨rfl, htail⟩ := List.cons.inj (List.cons.inj heq).2
          obtain ⟨rfl, hrest⟩ := ih hsecond htail
          exact ⟨rfl, hrest⟩
      | ordinary hother _ _ => exact absurd (List.cons.inj heq).1.symm hother
  | ordinary hsymbol hnotSep _ ih =>
      cases hsecond with
      | nil =>
          rw [List.nil_append, List.cons_append] at heq
          exact absurd ((List.cons.inj heq).1 ▸ hsep') hnotSep
      | escaped other _ => exact absurd (List.cons.inj heq).1 hsymbol
      | ordinary _ _ hsecond =>
          obtain ⟨rfl, htail⟩ := List.cons.inj heq
          obtain ⟨rfl, hrest⟩ := ih hsecond htail
          exact ⟨rfl, hrest⟩

/-- A text without a separator that is not escaped is not one with it. -/
theorem Plain.ne_append (hfirst : Plain esc seps first) (hsecond : Plain esc seps second)
    (hsep : sep ∈ seps) (hesc : esc ∉ seps) : first ≠ second ++ sep :: rest := by
  intro heq
  induction hsecond generalizing first with
  | nil =>
      subst heq
      cases hfirst with
      | escaped symbol _ => exact hesc hsep
      | ordinary _ hnot _ => exact hnot hsep
  | escaped symbol _ ih =>
      rw [List.cons_append, List.cons_append] at heq
      cases hfirst with
      | nil => cases heq
      | escaped _ hrest => exact ih hrest (List.cons.inj (List.cons.inj heq).2).2
      | ordinary hne _ _ => exact hne (List.cons.inj heq).1
  | ordinary hne _ _ ih =>
      rw [List.cons_append] at heq
      cases hfirst with
      | nil => cases heq
      | escaped _ _ => exact hne (List.cons.inj heq).1.symm
      | ordinary _ _ hrest => exact ih hrest (List.cons.inj heq).2

theorem plain_intercalate {texts : List (List α)} (htexts : ∀ text ∈ texts, Plain esc seps text)
    (hsep : sep ∉ seps) (hesc : sep ≠ esc) : Plain esc seps ([sep].intercalate texts) := by
  induction texts with
  | nil => exact .nil
  | cons text rest ih =>
      have htext := htexts text List.mem_cons_self
      have hrest := ih fun other hother => htexts other (List.mem_cons_of_mem text hother)
      cases rest with
      | nil => rwa [List.intercalate_singleton]
      | cons other rest =>
          rw [List.intercalate_cons_cons, List.append_assoc, List.singleton_append]
          exact htext.append (.ordinary hesc hsep hrest)

/-- **The texts between separators are determined.** -/
theorem plain_intercalate_inj {texts texts' : List (List α)} (hne : texts ≠ []) (hne' : texts' ≠ [])
    (htexts : ∀ text ∈ texts, Plain esc [sep] text)
    (htexts' : ∀ text ∈ texts', Plain esc [sep] text) (hesc : sep ≠ esc)
    (heq : [sep].intercalate texts = [sep].intercalate texts') : texts = texts' := by
  have hsep : sep ∈ [sep] := List.mem_singleton.mpr rfl
  have hnotEsc : esc ∉ [sep] := fun hmem => hesc (List.mem_singleton.mp hmem).symm
  induction texts generalizing texts' with
  | nil => exact absurd rfl hne
  | cons text rest ih =>
      have htext := htexts text List.mem_cons_self
      obtain ⟨text', rest', rfl⟩ := List.exists_cons_of_ne_nil hne'
      have htext' := htexts' text' List.mem_cons_self
      cases rest with
      | nil =>
          cases rest' with
          | nil =>
              rw [List.intercalate_singleton, List.intercalate_singleton] at heq
              rw [heq]
          | cons other rest' =>
              rw [List.intercalate_singleton, List.intercalate_cons_cons, List.append_assoc,
                List.singleton_append] at heq
              exact absurd heq (htext.ne_append htext' hsep hnotEsc)
      | cons other rest =>
          cases rest' with
          | nil =>
              rw [List.intercalate_singleton, List.intercalate_cons_cons, List.append_assoc,
                List.singleton_append] at heq
              exact absurd heq.symm (htext'.ne_append htext hsep hnotEsc)
          | cons other' rest' =>
              rw [List.intercalate_cons_cons, List.intercalate_cons_cons, List.append_assoc,
                List.append_assoc, List.singleton_append, List.singleton_append] at heq
              obtain ⟨rfl, _, htail⟩ := htext.split htext' hsep hsep hnotEsc heq
              rw [ih (List.cons_ne_nil other rest) (List.cons_ne_nil other' rest')
                (fun x hx => htexts x (List.mem_cons_of_mem _ hx))
                (fun x hx => htexts' x (List.mem_cons_of_mem _ hx)) htail]

end Plain

/-! ## Escaping -/

section Unescape

variable [DecidableEq α]

/-- The text without its escapes. -/
def unescape (esc : α) : List α → List α
  | [] => []
  | [symbol] => [symbol]
  | first :: second :: rest =>
      if first = esc then second :: unescape esc rest else first :: unescape esc (second :: rest)

variable {esc : α}

theorem unescape_escaped (symbol : α) (rest : List α) :
    unescape esc (esc :: symbol :: rest) = symbol :: unescape esc rest := by
  rw [unescape, if_pos rfl]

theorem unescape_ordinary {symbol : α} (hsymbol : symbol ≠ esc) (rest : List α) :
    unescape esc (symbol :: rest) = symbol :: unescape esc rest := by
  cases rest with
  | nil => rfl
  | cons second rest => rw [unescape, if_neg hsymbol]

/-- How a symbol is written: escaped, or as it is if nothing speaks against it. -/
inductive Quotes (esc : α) (seps : List α) (symbol : α) : List α → Prop
  | escaped : Quotes esc seps symbol [esc, symbol]
  | ordinary (hesc : symbol ≠ esc) (hsep : symbol ∉ seps) : Quotes esc seps symbol [symbol]

/-- A text of which each symbol is escaped or need not be. -/
theorem unescape_flatMap {β : Type*} {seps : List α} {write : β → List α} {symbol : β → α}
    (text : List β) (hwrite : ∀ x ∈ text, Quotes esc seps (symbol x) (write x)) :
    Plain esc seps (text.flatMap write) ∧ unescape esc (text.flatMap write) = text.map symbol := by
  induction text with
  | nil => exact ⟨.nil, rfl⟩
  | cons x rest ih =>
      have hx := hwrite x List.mem_cons_self
      obtain ⟨hplain, hrest⟩ := ih fun y hy => hwrite y (List.mem_cons_of_mem x hy)
      rw [List.flatMap_cons, List.map_cons]
      generalize write x = written at hx
      cases hx with
      | escaped => exact ⟨.escaped _ hplain, by
          rw [List.cons_append, List.singleton_append, unescape_escaped, hrest]⟩
      | ordinary hesc hsep => exact ⟨.ordinary hesc hsep hplain, by
          rw [List.singleton_append, unescape_ordinary hesc, hrest]⟩

end Unescape

end PqcReadiness.Lib.Escape
