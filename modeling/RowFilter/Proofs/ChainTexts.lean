import RowFilter.Proofs.Tiling
import RowFilter.Proofs.Wording

/-!
# Chains are known by their texts

Where property names are formed as names are, the text of a chain has no blanks, and the dots and
parentheses in it are those between and around the names. So the text gives the names back, and
from an entity names lead along one chain only. A name may be a single letter outside ASCII here:
such a text cannot be scanned, but it still tells what it was written from.
-/

namespace RowFilter

open RowFilter.Grammar RowFilter.Text

variable {schema : Schema}

/-- Lists that one map does not tell apart, another does not tell apart either, if it does not for
their members. -/
theorem map_eq_map_of_imp {α β γ : Type} {f : α → β} {g : α → γ} {xs ys : List α}
    (h : ∀ x ∈ xs, ∀ y ∈ ys, f x = f y → g x = g y) (heq : xs.map f = ys.map f) :
    xs.map g = ys.map g := by
  induction xs generalizing ys with
  | nil => rw [List.map_eq_nil_iff.1 heq.symm]
  | cons x xs ih =>
    obtain ⟨y, ys, rfl, hy, hys⟩ := List.map_eq_cons_iff.1 heq.symm
    have hrest := ih (fun a ha b hb => h a (List.mem_cons_of_mem x ha) b
      (List.mem_cons_of_mem y hb)) hys.symm
    rw [List.map_cons, List.map_cons, hrest,
      h x List.mem_cons_self y List.mem_cons_self hy.symm]

/-! ## Words with something between them -/

/-- The text is not empty, and no blank is in it. -/
def Unbroken (s : String) : Prop :=
  s ≠ "" ∧ ∀ c ∈ s.toList, isBlank c = false

instance (s : String) : Decidable (Unbroken s) :=
  decidable_of_iff (s ≠ "" ∧ (s.toList.all fun c => !isBlank c) = true) (by simp [Unbroken])

theorem Unbroken.notMem {s : String} {c : Char} (h : Unbroken s) (hc : isBlank c = true) :
    c ∉ s.toList := by
  intro hmem
  rw [h.2 c hmem] at hc
  cases hc

/-- What the separator and all words consist of, the words with the separator between them consist
of. -/
theorem forall_mem_intercalate {P : Char → Prop} {sep : String} {ws : List String}
    (hsep : ∀ c ∈ sep.toList, P c) (hws : ∀ w ∈ ws, ∀ c ∈ w.toList, P c) :
    ∀ c ∈ (sep.intercalate ws).toList, P c := by
  induction ws with
  | nil => simp
  | cons w ws ih =>
    cases ws with
    | nil => simpa using hws
    | cons w' ws =>
      have hrest := ih fun k hk => hws k (List.mem_cons_of_mem w hk)
      intro c hc
      rw [String.intercalate_cons_cons, String.toList_append, String.toList_append,
        List.mem_append, List.mem_append] at hc
      rcases hc with (hc | hc) | hc
      · exact hws w List.mem_cons_self c hc
      · exact hsep c hc
      · exact hrest c hc

/-! ## Names back from texts -/

namespace Hop

variable {h k : Hop}

theorem dot_notMem_render (hname : (Lexeme.name h.property.name).Scanned) :
    '.' ∉ h.render.toList := by
  have hdot : '.' ∉ h.property.name.toList := hname.notMem_of_sign (by decide +kernel)
  unfold render
  cases h.outer with
  | false => exact hdot
  | true => simpa using hdot

theorem unbroken_render (hname : (Lexeme.name h.property.name).Scanned) : Unbroken h.render := by
  have hne : h.property.name.toList ≠ [] := hname.spelling_ne_nil
  have hblank : ∀ c ∈ h.property.name.toList, isBlank c = false := hname.isBlank_eq_false
  unfold render
  cases h.outer with
  | false =>
    refine ⟨?_, hblank⟩
    rintro heq
    exact hne (String.toList_eq_nil_iff.2 heq)
  | true =>
    have hparens : isBlank '(' = false ∧ isBlank ')' = false := by decide
    refine ⟨by simp [← String.toList_inj], fun c hc => ?_⟩
    simp only [if_true, String.toList_append, List.mem_append] at hc
    rcases hc with (hc | hc) | hc
    · rw [List.mem_singleton.1 hc]
      exact hparens.1
    · exact hblank c hc
    · rw [List.mem_singleton.1 hc]
      exact hparens.2

/-- A hop is written in parentheses exactly if it is outer, since there are none in a name. -/
theorem render_inj (hh : (Lexeme.name h.property.name).Scanned)
    (hk : (Lexeme.name k.property.name).Scanned) (heq : h.render = k.render) :
    h.property.name = k.property.name ∧ h.outer = k.outer := by
  have hparen : ∀ {s : String}, (Lexeme.name s).Scanned → ∀ t : String, "(" ++ t ++ ")" ≠ s := by
    rintro s hs t rfl
    exact hs.notMem_of_sign (c := '(') (by decide +kernel) (by simp)
  unfold render at heq
  cases hho : h.outer <;> cases hko : k.outer <;>
    simp only [hho, hko, if_true, Bool.false_eq_true, if_false] at heq
  · exact ⟨heq, rfl⟩
  · exact absurd heq.symm (hparen hh _)
  · exact absurd heq (hparen hk _)
  · exact ⟨(String.append_right_inj _).1 ((String.append_left_inj _).1 heq), rfl⟩

end Hop

namespace Chain

variable {c d : Chain}

/-- The text gives the names back. -/
theorem names_eq_of_render_eq (hc : ∀ h ∈ c.hops, (Lexeme.name h.property.name).Scanned)
    (hd : ∀ h ∈ d.hops, (Lexeme.name h.property.name).Scanned) (heq : c.render = d.render) :
    c.names = d.names := by
  have hwords : ∀ {hops : List Hop}, (∀ h ∈ hops, (Lexeme.name h.property.name).Scanned) →
      ∀ w ∈ hops.map Hop.render, '.' ∉ w.toList ∧ w ≠ "" := by
    intro hops hnames w hw
    obtain ⟨h, hh, rfl⟩ := List.mem_map.1 hw
    exact ⟨Hop.dot_notMem_render (hnames h hh), (Hop.unbroken_render (hnames h hh)).1⟩
  have hrenders : c.hops.map Hop.render = d.hops.map Hop.render :=
    eq_of_intercalate_eq (hwords hc) (hwords hd) heq
  apply map_eq_map_of_imp _ hrenders
  intro h hh k hk hsame
  obtain ⟨hname, houter⟩ := Hop.render_inj (hc h hh) (hd k hk) hsame
  rw [hname, houter]

theorem unbroken_render (hc : ∀ h ∈ c.hops, (Lexeme.name h.property.name).Scanned) :
    Unbroken c.render := by
  obtain ⟨first, more, hhops⟩ := List.exists_cons_of_ne_nil c.hops_ne_nil
  constructor
  · have hfirst : first.render ≠ "" := (Hop.unbroken_render (hc first (by simp [hhops]))).1
    have hhead : (".".intercalate (first.render :: more.map Hop.render)).toList.head? =
        first.render.toList.head? := head?_intercalate hfirst
    intro hempty
    rw [← List.map_cons, ← hhops, ← render, hempty] at hhead
    exact hfirst (String.toList_eq_nil_iff.1 (List.head?_eq_none_iff.1 hhead.symm))
  · refine forall_mem_intercalate (fun x hx => ?_) fun w hw => ?_
    · rw [List.mem_singleton.1 hx]
      decide
    · obtain ⟨h, hh, rfl⟩ := List.mem_map.1 hw
      exact (Hop.unbroken_render (hc h hh)).2

end Chain

/-! ## One chain for names -/

/-- An entity has one property of a name. -/
theorem Property.DeclaredIn.eq {p q : Property} (hp : p.DeclaredIn schema)
    (hq : q.DeclaredIn schema) (howner : p.owner = q.owner) (hname : p.name = q.name) : p = q := by
  obtain ⟨e, he, hpe⟩ := hp
  obtain ⟨e', he', hqe⟩ := hq
  rw [howner, he'] at he
  obtain rfl := Option.some.inj he
  rw [hname, hqe] at hpe
  exact (Option.some.inj hpe).symm

/-- Hops that start at one entity and lead on are the same if their names are. -/
theorem hops_eq_of_names_eq {hs ks : List Hop}
    (hhs : ∀ p ∈ hs.map Hop.property, p.DeclaredIn schema)
    (hks : ∀ p ∈ ks.map Hop.property, p.DeclaredIn schema)
    (hsconn : hs.IsChain Hop.LeadsTo) (hkconn : ks.IsChain Hop.LeadsTo)
    (hstart : ∀ h ∈ hs.head?, ∀ k ∈ ks.head?, h.property.owner = k.property.owner)
    (heq : (hs.map fun h => HopName.mk h.property.name h.outer) =
      ks.map fun k => ⟨k.property.name, k.outer⟩) : hs = ks := by
  induction hs generalizing ks with
  | nil => exact (List.map_eq_nil_iff.1 heq.symm).symm
  | cons h hs ih =>
    obtain ⟨k, ks, rfl, hk, hrest⟩ := List.map_eq_cons_iff.1 heq.symm
    obtain ⟨hname, houter⟩ := HopName.mk.inj hk
    rw [List.map_cons, List.forall_mem_cons] at hhs hks
    have hproperty : h.property = k.property :=
      hhs.1.eq hks.1 (hstart h rfl k rfl) hname.symm
    have hsame : h = k := by
      cases h
      cases k
      simp_all
    obtain ⟨hlead, hsconn⟩ := List.isChain_cons.1 hsconn
    obtain ⟨klead, hkconn⟩ := List.isChain_cons.1 hkconn
    -- both lead to the entity that the one property they are over leads to
    have hnext : ∀ h' ∈ hs.head?, ∀ k' ∈ ks.head?, h'.property.owner = k'.property.owner := by
      intro h' hh' k' hk'
      have hhkind : h.property.kind = .relation h'.property.owner .toOne := hlead h' hh'
      have hkkind : k.property.kind = .relation k'.property.owner .toOne := klead k' hk'
      rw [hproperty, hkkind] at hhkind
      exact (PropertyKind.relation.inj hhkind).1.symm
    rw [hsame, ih hhs.2 hks.2 hsconn hkconn hnext hrest.symm]

/-- From an entity, chains are the same if their texts are. -/
theorem Chain.eq_of_render_eq {c d : Chain} (hnames : schema.WellNamed)
    (hc : c.DeclaredIn schema) (hd : d.DeclaredIn schema) (hcconn : c.Connected)
    (hdconn : d.Connected) (hroot : c.root = d.root) (heq : c.render = d.render) : c = d := by
  have hsame : c.names = d.names :=
    names_eq_of_render_eq (hc.scanned hnames) (hd.scanned hnames) heq
  apply hops_injective
  apply hops_eq_of_names_eq hc hd hcconn hdconn _ hsame
  intro h hh k hk
  rw [c.head?_hops h hh, d.head?_hops k hk, hroot]

end RowFilter
