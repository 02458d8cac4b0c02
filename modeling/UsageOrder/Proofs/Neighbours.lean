import UsageOrder.Proofs.Precedence

/-!
# Neighbours in an order

`Order.Neighbours order first second` says that one name stands immediately before another one.  An
order is known by its neighbours: an arrangement of the same names in which each name stands
somewhere behind its predecessor is the order itself (`eq_of_neighbours`).
-/

namespace UsageOrder
namespace Order

variable {α β : Type} {order : List α} {a b c : α}

/-- A name stands immediately before another one. -/
def Neighbours (order : List α) (first second : α) : Prop :=
  ∃ place : Nat, order[place]? = some first ∧ order[place + 1]? = some second

theorem mem_zip_drop_iff : (a, b) ∈ order.zip (order.drop 1) ↔ Neighbours order a b := by
  rw [List.mem_iff_getElem?]
  refine exists_congr fun place => ?_
  rw [List.getElem?_zip_eq_some, List.getElem?_drop, Nat.add_comm 1 place]

theorem Neighbours.precedes (h : Neighbours order a b) : Precedes order a b :=
  precedes_of_mem_zip (mem_zip_drop_iff.2 h)

theorem Neighbours.map (h : Neighbours order a b) (f : α → β) :
    Neighbours (order.map f) (f a) (f b) := by
  obtain ⟨place, ha, hb⟩ := h
  exact ⟨place, by rw [List.getElem?_map, ha]; rfl, by rw [List.getElem?_map, hb]; rfl⟩

/-- A name has one predecessor. -/
theorem Neighbours.left_unique (h : Neighbours order a c) (h' : Neighbours order b c)
    (hnodup : order.Nodup) : a = b := by
  obtain ⟨place, ha, hc⟩ := h
  obtain ⟨place', hb, hc'⟩ := h'
  have hlt : place + 1 < order.length := (List.getElem?_eq_some_iff.1 hc).1
  have hsame : place + 1 = place' + 1 := (List.getElem?_inj hlt hnodup).1 (hc.trans hc'.symm)
  obtain rfl : place = place' := Nat.succ.inj hsame
  exact Option.some.inj (ha.symm.trans hb)

/-- What stands before a name stands before all that come behind it. -/
theorem Precedes.transitive (hab : Precedes order a b) (hbc : Precedes order b c)
    (hnodup : order.Nodup) : Precedes order a c := by
  obtain ⟨front, rest, rfl⟩ := List.append_of_mem hab.mem_right
  have hc : c ∈ rest := (precedes_middle_iff hnodup).1 hbc
  have ha : a ∈ front := by
    refine (List.mem_append.1 hab.mem_left).resolve_right fun ha => ?_
    rcases List.mem_cons.1 ha with rfl | ha
    · exact hab.ne hnodup rfl
    · exact hab.asymm hnodup ((precedes_middle_iff hnodup).2 ha)
  exact precedes_append_iff.2 (Or.inr (Or.inl ⟨ha, List.mem_cons_of_mem _ hc⟩))

/-- **An arrangement in which each name stands behind its predecessor in an order is it.** -/
theorem eq_of_neighbours {arranged : List α} (hperm : order.Perm arranged) (hnodup : order.Nodup)
    (h : ∀ a b, Neighbours order a b → Precedes arranged a b) : order = arranged := by
  have hnodup' := hperm.nodup_iff.1 hnodup
  have htrans : Trans (Precedes arranged) (Precedes arranged) (Precedes arranged) :=
    ⟨fun hab hbc => hab.transitive hbc hnodup'⟩
  have hchain : order.IsChain (Precedes arranged) := by
    rw [List.isChain_iff_getElem]
    intro place hplace
    exact h _ _ ⟨place, List.getElem?_eq_getElem _, List.getElem?_eq_getElem hplace⟩
  refine eq_of_precedes hperm hnodup' fun a b hab => ?_
  exact List.pairwise_iff_forall_sublist.1 (List.isChain_iff_pairwise.1 hchain) hab

end Order
end UsageOrder
