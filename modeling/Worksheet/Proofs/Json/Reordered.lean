import Mathlib.Data.List.Forall2
import Worksheet.Json.Record
import Worksheet.Proofs.Json.ReadBack
import Worksheet.Proofs.Lookup
/-!
# Members in another order

The members of an object may stand in any order, in every object of a value. What a record, a list, a dictionary or a
set is read from stays the same.

* `Json.Reordered`: a value with the members of its objects in other orders;
* `Reordered.plain`: it is as plain as before;
* `Reordered.record?`, `Reordered.tagged?`: the fields of a record are found, each one reordered;
* `Recovers`: a reader gives one result for a value in all its orders; **`recovers_list`**, **`recovers_dict`** and
  **`recovers_textSet`** build such readers from those for the parts.
-/

namespace Worksheet

/-! ## Dictionaries from entries in any order -/

theorem Dict.ofList_perm {α : Type _} {d : Dict α} {entries : List (String × α)} (h : d.entries.Perm entries) :
    Dict.ofList entries = d := by
  have hnodup : (entries.map (·.1)).Nodup := (h.map _).nodup_iff.mp d.ascending.nodup_keys
  refine Dict.ext_find? fun k => ?_
  cases hk : d.find? k with
  | some v =>
    have hmem : (k, v) ∈ entries := h.subset (Dict.find?_eq_some_iff.mp hk)
    refine Dict.find?_ofList_of_agree hmem fun e he hek => ?_
    rw [List.inj_on_of_nodup_map hnodup he hmem hek]
  | none =>
    refine Dict.find?_ofList_eq_none fun e he hek => ?_
    have hsome : d.find? e.1 = some e.2 := Dict.find?_eq_some_iff.mpr (h.symm.subset he)
    rw [hek, hk] at hsome
    cases hsome

namespace Json

/-- The second value is the first one with the members of objects in any order, at every depth. -/
inductive Reordered : Json → Json → Prop
  | same (j : Json) : Reordered j j
  | array {items items' : List Json} (hitems : List.Forall₂ Reordered items items') :
    Reordered (array items) (array items')
  /-- The members are reordered inside, one by one under their names, and change places then. -/
  | object {members middle members' : List (String × Json)} (hnames : middle.map (·.1) = members.map (·.1))
    (hvalues : List.Forall₂ Reordered (members.map (·.2)) (middle.map (·.2))) (hplaces : middle.Perm members') :
    Reordered (object members) (object members')

variable {j k : Json} {members : List (String × Json)}

theorem reordered_reverse (members : List (String × Json)) : Reordered (object members) (object members.reverse) :=
  .object rfl (List.forall₂_same.mpr fun j _ => .same j) (List.reverse_perm members).symm

/-! ## Plain values -/

@[simp] theorem plain_text (s : String) (depth : Nat) : (text s).Plain depth := by
  cases depth <;> trivial

theorem plain_integer {n : Int} (hn : Word.fits n = true) (depth : Nat) : (integer n).Plain depth := by
  cases depth <;> exact hn

theorem plain_object {depth : Nat} : (object members).Plain (depth + 1) ↔ ∀ m ∈ members, m.2.Plain depth :=
  .rfl

theorem plain_ofList {α : Type} {write : α → Json} {items : List α} {depth : Nat}
    (h : ∀ a ∈ items, (write a).Plain depth) : (ofList write items).Plain (depth + 1) := by
  intro j hj
  obtain ⟨a, ha, rfl⟩ := List.mem_map.mp hj
  exact h a ha

theorem plain_ofDict {α : Type} {write : α → Json} {d : Dict α} {depth : Nat}
    (h : ∀ e ∈ d.entries, (write e.2).Plain depth) : (ofDict write d).Plain (depth + 1) := by
  intro m hm
  obtain ⟨e, he, rfl⟩ := List.mem_map.mp hm
  exact h e he

theorem plain_texts (items : List String) (depth : Nat) : (ofList text items).Plain (depth + 1) :=
  plain_ofList fun _ _ => plain_text _ _

theorem plain_textDict (d : Dict String) (depth : Nat) : (ofDict text d).Plain (depth + 1) :=
  plain_ofDict fun _ _ => plain_text _ _

theorem Plain.isSound {depth : Nat} (hj : j.Plain depth) : j.isSound = true := by
  have hitems : ∀ {items : List Json}, (∀ j ∈ items, j.isSound = true) → areSound items = true := by
    intro items h
    induction items with
    | nil => rfl
    | cons j items ih => rw [areSound, h j List.mem_cons_self, ih fun k hk => h k (List.mem_cons_of_mem j hk)]; rfl
  have hmembers : ∀ {members : List (String × Json)}, (∀ m ∈ members, m.2.isSound = true) →
      areSoundMembers members = true := by
    intro members h
    induction members with
    | nil => rfl
    | cons m members ih =>
      rw [areSoundMembers, h m List.mem_cons_self, ih fun k hk => h k (List.mem_cons_of_mem m hk)]
      rfl
  induction depth generalizing j with
  | zero => cases j <;> first | rfl | exact hj.elim
  | succ depth ih =>
    cases j with
    | array items => exact hitems fun j hmem => ih (hj j hmem)
    | object members => exact hmembers fun m hmem => ih (hj m hmem)
    | decimal d => exact hj.elim
    | unusable => exact hj.elim
    | _ => rfl

theorem Reordered.plain (h : Reordered j k) {depth : Nat} (hj : j.Plain depth) : k.Plain depth := by
  induction depth generalizing j k with
  | zero =>
    cases h with
    | same => exact hj
    | array => exact hj.elim
    | object => exact hj.elim
  | succ depth ih =>
    -- the items of the first value are plain, so those of the second one are
    have hlist : ∀ {items items'}, List.Forall₂ Reordered items items' → (∀ j ∈ items, j.Plain depth) →
        ∀ k ∈ items', k.Plain depth := by
      intro items items' hall hplain
      induction hall with
      | nil => nofun
      | cons hhead _ hrest =>
        rw [List.forall_mem_cons] at hplain ⊢
        exact ⟨ih hhead hplain.1, hrest hplain.2⟩
    cases h with
    | same => exact hj
    | array hitems => exact hlist hitems hj
    | object hnames hvalues hplaces =>
      have hplain := hlist hvalues (List.forall_mem_map.mpr hj)
      exact fun m hm => hplain m.2 (List.mem_map_of_mem (hplaces.symm.subset hm))

/-! ## Fields -/

/-- The same name, and the value reordered. -/
def ReorderedMember (m m' : String × Json) : Prop :=
  m'.1 = m.1 ∧ Reordered m.2 m'.2

theorem members_of_reordered (h : Reordered (object members) k) : ∃ middle members',
    k = object members' ∧ List.Forall₂ ReorderedMember members middle ∧ middle.Perm members' := by
  cases h with
  | same => exact ⟨members, members, rfl, List.forall₂_same.mpr fun m _ => ⟨rfl, .same m.2⟩, .refl members⟩
  | @object _ middle members' hnames hvalues hplaces =>
    refine ⟨middle, members', rfl, ?_, hplaces⟩
    clear hplaces
    induction members generalizing middle with
    | nil =>
      obtain rfl := List.map_eq_nil_iff.mp hnames
      exact .nil
    | cons m members ih =>
      cases middle with
      | nil => cases hnames
      | cons m' middle =>
        obtain ⟨hname, hnames⟩ := List.cons.inj hnames
        obtain ⟨hvalue, hvalues⟩ := List.forall₂_cons.mp hvalues
        exact .cons ⟨hname, hvalue⟩ (ih hnames hvalues)

/-- The members of a name are found in every order. -/
theorem member?_reordered {middle members' : List (String × Json)} (hmiddle : List.Forall₂ ReorderedMember members middle)
    (hplaces : middle.Perm members') {name : String} {field : Option Json}
    (hfield : member? members name = some field) :
    ∃ field', member? members' name = some field' ∧ Option.Rel Reordered field field' := by
  have hfilter : List.Forall₂ ReorderedMember (members.filter (·.1 == name)) (middle.filter (·.1 == name)) :=
    List.rel_filter (fun m m' hm => by simp [hm.1]) hmiddle
  have hperm := hplaces.filter (·.1 == name)
  rw [member?] at hfield
  split at hfield
  · rename_i hnone
    cases hfield
    rw [hnone, List.forall₂_nil_left_iff] at hfilter
    rw [hfilter, List.nil_perm] at hperm
    exact ⟨none, by rw [member?, hperm], .none⟩
  · rename_i m hone
    cases hfield
    rw [hone] at hfilter
    obtain ⟨m', _, hm, hnil, hmiddle⟩ := List.forall₂_cons_left_iff.mp hfilter
    rw [List.forall₂_nil_left_iff] at hnil
    rw [hmiddle, hnil, List.singleton_perm] at hperm
    exact ⟨some m'.2, by rw [member?, ← hperm], .some hm.2⟩
  · cases hfield

/-- **The fields of a record are found in every order of its members.** -/
theorem record?_reordered (names : List String) (h : Reordered (object members) k) {fields : List (Option Json)}
    (hfields : (object members).record? names = some fields) :
    ∃ fields', k.record? names = some fields' ∧ List.Forall₂ (Option.Rel Reordered) fields fields' := by
  obtain ⟨middle, members', rfl, hmiddle, hplaces⟩ := members_of_reordered h
  rw [record?] at hfields
  induction names generalizing fields with
  | nil =>
    cases hfields
    exact ⟨[], rfl, .nil⟩
  | cons name names ih =>
    rw [List.mapM_cons] at hfields
    obtain ⟨field, hfield, hfields⟩ := Option.bind_eq_some_iff.mp hfields
    obtain ⟨rest, hrest, ⟨⟩⟩ := Option.bind_eq_some_iff.mp hfields
    obtain ⟨field', hfield', hrel⟩ := member?_reordered hmiddle hplaces hfield
    obtain ⟨rest', hrest', hall⟩ := ih hrest
    rw [record?] at hrest'
    refine ⟨field' :: rest', ?_, .cons hrel hall⟩
    rw [record?, List.mapM_cons, hfield', hrest']
    rfl

theorem record?_filter_ne {names : List String} {tag : String} (htag : tag ∉ names) :
    (object (members.filter (·.1 != tag))).record? names = (object members).record? names := by
  have hmember : ∀ name ∈ names, member? (members.filter (·.1 != tag)) name = member? members name := by
    intro name hname
    have hne : name ≠ tag := fun heq => htag (heq ▸ hname)
    have hfilter : (members.filter (·.1 != tag)).filter (·.1 == name) = members.filter (·.1 == name) := by
      rw [List.filter_filter]
      refine List.filter_congr fun m _ => ?_
      by_cases hm : m.1 = name
      · simp [hm, hne]
      · simp [hm]
    rw [member?, member?, hfilter]
  rw [record?, record?]
  induction names with
  | nil => rfl
  | cons name names ih =>
    rw [List.forall_mem_cons] at hmember
    rw [List.mapM_cons, List.mapM_cons, hmember.1, ih (fun h => htag (List.mem_cons_of_mem name h)) hmember.2]

/-- **A tag is split off in every order of the members**, and leaves the other fields. -/
theorem tagged?_reordered {tag name : String} (h : Reordered (object members) k)
    (htag : member? members tag = some (some (text name))) : ∃ members', k = object members' ∧
      k.tagged? tag = some (text name, object (members'.filter (·.1 != tag))) := by
  obtain ⟨middle, members', rfl, hmiddle, hplaces⟩ := members_of_reordered h
  obtain ⟨_, hfield, ⟨hname⟩⟩ := member?_reordered hmiddle hplaces htag
  cases hname
  exact ⟨members', rfl, by rw [tagged?, hfield]⟩

/-! ## Readers -/

/-- The reader gives the result for the value with its members in any order. -/
def Recovers {α : Type} (read : Json → Option α) (j : Json) (a : α) : Prop :=
  ∀ k, Reordered j k → read k = some a

theorem Recovers.required {α : Type} {read : Json → Option α} {a : α} {field : Option Json} (h : Recovers read j a)
    (hfield : Option.Rel Reordered (some j) field) : required read field = some a := by
  obtain ⟨hj⟩ := hfield
  exact h _ hj

theorem Recovers.orElse {α : Type} {read : Json → Option α} {a : α} {field : Option Json} (h : Recovers read j a)
    (absent : α) (hfield : Option.Rel Reordered (some j) field) : orElse absent read field = some a := by
  obtain ⟨hj⟩ := hfield
  exact h _ hj

theorem recovers_text (s : String) : Recovers text? (text s) s := by
  rintro _ ⟨⟩
  rfl

variable {α : Type} {read : Json → Option α} {write : α → Json}

theorem mapM_of_forall₂ {β γ : Type} {f : β → Option γ} {R : γ → β → Prop} {r : List γ} {l : List β}
    (hall : List.Forall₂ R r l) (h : ∀ c ∈ r, ∀ b, R c b → f b = some c) : l.mapM f = some r := by
  induction hall with
  | nil => rfl
  | cons hhead _ ih =>
    rw [List.forall_mem_cons] at h
    rw [List.mapM_cons, h.1 _ hhead, ih h.2]
    rfl

theorem mapM_perm {β γ : Type} {f : β → Option γ} {l l' : List β} (hperm : l.Perm l') {r : List γ}
    (h : l.mapM f = some r) : ∃ r', l'.mapM f = some r' ∧ r.Perm r' := by
  induction hperm generalizing r with
  | nil => exact ⟨r, h, .refl r⟩
  | cons b _ ih =>
    rw [List.mapM_cons] at h ⊢
    obtain ⟨c, hc, h⟩ := Option.bind_eq_some_iff.mp h
    obtain ⟨rest, hrest, ⟨⟩⟩ := Option.bind_eq_some_iff.mp h
    obtain ⟨rest', hrest', hperm⟩ := ih hrest
    exact ⟨c :: rest', by rw [hc, hrest']; rfl, hperm.cons c⟩
  | swap b b' l =>
    simp only [List.mapM_cons] at h ⊢
    obtain ⟨c', hc', h⟩ := Option.bind_eq_some_iff.mp h
    obtain ⟨_, hr, ⟨⟩⟩ := Option.bind_eq_some_iff.mp h
    obtain ⟨c, hc, hr⟩ := Option.bind_eq_some_iff.mp hr
    obtain ⟨rest, hrest, ⟨⟩⟩ := Option.bind_eq_some_iff.mp hr
    exact ⟨c :: c' :: rest, by rw [hc, hc', hrest]; rfl, .swap c c' rest⟩
  | trans _ _ ih ih' =>
    obtain ⟨r', hr', hperm⟩ := ih h
    obtain ⟨r'', hr'', hperm'⟩ := ih' hr'
    exact ⟨r'', hr'', hperm.trans hperm'⟩

theorem recovers_list {items : List α} (h : ∀ a ∈ items, Recovers read (write a) a) :
    Recovers (listOf? read) (ofList write items) items := by
  have hread : ∀ {items'}, List.Forall₂ Reordered (items.map write) items' → listOf? read (array items') = some items := by
    intro items' hitems
    rw [List.forall₂_map_left_iff] at hitems
    exact mapM_of_forall₂ hitems h
  intro k hk
  cases hk with
  | same => exact hread (List.forall₂_same.mpr fun j _ => .same j)
  | array hitems => exact hread hitems

theorem recovers_dict {d : Dict α} (h : ∀ e ∈ d.entries, Recovers read (write e.2) e.2) :
    Recovers (dictOf? read) (ofDict write d) d := by
  intro k hk
  obtain ⟨middle, members', rfl, hmiddle, hplaces⟩ := members_of_reordered hk
  have hread : middle.mapM (fun m => (read m.2).map (m.1, ·)) = some d.entries := by
    rw [List.forall₂_map_left_iff] at hmiddle
    refine mapM_of_forall₂ hmiddle fun e he m hm => ?_
    rw [h e he m.2 hm.2, hm.1]
    rfl
  obtain ⟨entries, hentries, hperm⟩ := mapM_perm hplaces hread
  rw [dictOf?, hentries, Option.map_some, Dict.ofList_perm hperm]

theorem recovers_texts (items : List String) : Recovers (listOf? text?) (ofList text items) items :=
  recovers_list fun _ _ => recovers_text _

theorem recovers_textDict (d : Dict String) : Recovers (dictOf? text?) (ofDict text d) d :=
  recovers_dict fun _ _ => recovers_text _

theorem recovers_textSet (s : TextSet) : Recovers textSet? (ofTextSet s) s := by
  intro k hk
  have hlist := recovers_texts s.keys k hk
  have hentries : s.keys.map (·, ()) = s.entries := by
    rw [Dict.keys, List.map_map]
    exact List.map_id _
  rw [textSet?, hlist, Option.map_some, hentries, Dict.ofList_perm (.refl _)]

end Json

end Worksheet
