import SoulCoreKit.Lib.Recency
import SoulCoreKit.Lib.UnorderedMap

/-!
# A map linked to a list

A map that keeps its keys in an order stores, beside each value, an iterator into a list of nodes,
and each node holds the key. The map and the list are updated separately. `Linked` says that they
refer to each other one to one, so that working on the node an iterator refers to is working on the
node of the key; `inOrder` reads the map in the order of the list.
-/

namespace SoulCoreKit

open UnorderedMap

variable {K E N A : Type} [DecidableEq K]

/-- Nodes and entries refer to each other, and the identities from `next` on are unused. -/
structure Linked (id : N → Nat) (key : N → K) (iter : E → Nat) (entries : UnorderedMap K E)
    (nodes : List N) (next : Nat) : Prop where
  keys_nodup : (nodes.map key).Nodup
  ids_nodup : (nodes.map id).Nodup
  id_lt : ∀ node ∈ nodes, id node < next
  entry_of_node : ∀ node ∈ nodes, key node ∈ entries
  node_of_entry : ∀ wanted entry, entries.lookup wanted = some entry →
    ∃ node ∈ nodes, id node = iter entry ∧ key node = wanted

namespace Linked

variable {id : N → Nat} {key : N → K} {iter : E → Nat} {entries : UnorderedMap K E}
  {nodes : List N} {next : Nat} {wanted : K} {entry : E} {node : N}

theorem empty (id : N → Nat) (key : N → K) (iter : E → Nat) (next : Nat) :
    Linked id key iter (∅ : UnorderedMap K E) [] next where
  keys_nodup := List.nodup_nil
  ids_nodup := List.nodup_nil
  id_lt := by simp
  entry_of_node := by simp
  node_of_entry := by simp

/-- Among the nodes, the iterator of an entry singles out the node of its key. -/
theorem id_eq_iff (hlinked : Linked id key iter entries nodes next)
    (hlookup : entries.lookup wanted = some entry) (hnode : node ∈ nodes) :
    id node = iter entry ↔ key node = wanted := by
  obtain ⟨own, hown, hid, hkey⟩ := hlinked.node_of_entry wanted entry hlookup
  constructor
  · intro heq
    have hsame := List.inj_on_of_nodup_map hlinked.ids_nodup hnode hown (heq.trans hid.symm)
    rw [hsame, hkey]
  · intro heq
    have hsame := List.inj_on_of_nodup_map hlinked.keys_nodup hnode hown (heq.trans hkey.symm)
    rw [hsame, hid]

theorem without_iter (hlinked : Linked id key iter entries nodes next)
    (hlookup : entries.lookup wanted = some entry) :
    Recency.without id (iter entry) nodes = Recency.without key wanted nodes := by
  unfold Recency.without
  apply List.filter_congr
  intro node hnode
  exact decide_eq_decide.mpr (not_congr (hlinked.id_eq_iff hlookup hnode))

theorem find_iter (hlinked : Linked id key iter entries nodes next)
    (hlookup : entries.lookup wanted = some entry) :
    ∃ node ∈ nodes, Recency.find id (iter entry) nodes = some node ∧ id node = iter entry ∧
      key node = wanted := by
  obtain ⟨own, hown, hid, -⟩ := hlinked.node_of_entry wanted entry hlookup
  cases hfind : Recency.find id (iter entry) nodes with
  | none =>
      rw [Recency.find_eq_none_iff, ← hid] at hfind
      exact absurd (List.mem_map_of_mem hown) hfind
  | some node =>
      have hnode := Recency.mem_of_find hfind
      have hiter := Recency.key_of_find hfind
      exact ⟨node, hnode, rfl, hiter, (hlinked.id_eq_iff hlookup hnode).mp hiter⟩

theorem mem_without : node ∈ Recency.without key wanted nodes ↔ node ∈ nodes ∧ key node ≠ wanted := by
  simp [Recency.without]

theorem ids_nodup_without (hlinked : Linked id key iter entries nodes next) (wanted : K) :
    ((Recency.without key wanted nodes).map id).Nodup := by
  have hsublist := (List.filter_sublist (p := fun node : N => key node ≠ wanted)
    (l := nodes)).map id
  exact hlinked.ids_nodup.sublist hsublist

theorem erase (hlinked : Linked id key iter entries nodes next) (wanted : K) :
    Linked id key iter (entries.erase wanted) (Recency.without key wanted nodes) next where
  keys_nodup := Recency.nodup_without hlinked.keys_nodup wanted
  ids_nodup := hlinked.ids_nodup_without wanted
  id_lt node hnode := hlinked.id_lt node (mem_without.mp hnode).1
  entry_of_node node hnode := by
    obtain ⟨hmem, hne⟩ := mem_without.mp hnode
    rw [Finmap.mem_erase]
    exact ⟨hne, hlinked.entry_of_node node hmem⟩
  node_of_entry other entry hlookup := by
    have hne : other ≠ wanted := by
      rintro rfl
      rw [Finmap.lookup_erase] at hlookup
      exact absurd hlookup (by simp)
    rw [Finmap.lookup_erase_ne hne] at hlookup
    obtain ⟨node, hnode, hid, hkey⟩ := hlinked.node_of_entry other entry hlookup
    exact ⟨node, mem_without.mpr ⟨hnode, hkey ▸ hne⟩, hid, hkey⟩

theorem mem_moveToFront (hlinked : Linked id key iter entries nodes next) (hnode : node ∈ nodes)
    {other : N} : other ∈ Recency.moveToFront key node nodes ↔ other ∈ nodes := by
  unfold Recency.moveToFront
  rw [List.mem_cons, mem_without]
  constructor
  · rintro (rfl | ⟨hother, -⟩)
    · exact hnode
    · exact hother
  · intro hother
    by_cases heq : key other = key node
    · exact Or.inl (List.inj_on_of_nodup_map hlinked.keys_nodup hother hnode heq)
    · exact Or.inr ⟨hother, heq⟩

theorem moveToFront (hlinked : Linked id key iter entries nodes next) (hnode : node ∈ nodes) :
    Linked id key iter entries (Recency.moveToFront key node nodes) next where
  keys_nodup := Recency.nodup_moveToFront hlinked.keys_nodup node
  ids_nodup := by
    unfold Recency.moveToFront
    rw [List.map_cons, List.nodup_cons]
    refine ⟨?_, hlinked.ids_nodup_without (key node)⟩
    intro hmem
    obtain ⟨other, hother, hid⟩ := List.mem_map.mp hmem
    obtain ⟨hold, hne⟩ := mem_without.mp hother
    have hsame := List.inj_on_of_nodup_map hlinked.ids_nodup hold hnode hid
    exact hne (congrArg key hsame)
  id_lt other hother := hlinked.id_lt other ((hlinked.mem_moveToFront hnode).mp hother)
  entry_of_node other hother :=
    hlinked.entry_of_node other ((hlinked.mem_moveToFront hnode).mp hother)
  node_of_entry other entry hlookup := by
    obtain ⟨own, hown, hown'⟩ := hlinked.node_of_entry other entry hlookup
    exact ⟨own, (hlinked.mem_moveToFront hnode).mpr hown, hown'⟩

theorem replace (hlinked : Linked id key iter entries nodes next)
    (hlookup : entries.lookup wanted = some entry) {entry' : E}
    (hiter : iter entry' = iter entry) :
    Linked id key iter (entries.insert wanted entry') nodes next where
  keys_nodup := hlinked.keys_nodup
  ids_nodup := hlinked.ids_nodup
  id_lt := hlinked.id_lt
  entry_of_node node hnode := Finmap.mem_insert.mpr (Or.inr (hlinked.entry_of_node node hnode))
  node_of_entry other found hfound := by
    rcases lookup_insert_cases hfound with ⟨rfl, rfl⟩ | ⟨-, hold⟩
    · rw [hiter]
      exact hlinked.node_of_entry other entry hlookup
    · exact hlinked.node_of_entry other found hold

theorem insert (hlinked : Linked id key iter entries nodes next) (hid : id node = next)
    (hfresh : key node ∉ entries) (hiter : iter entry = next) :
    Linked id key iter (entries.insert (key node) entry) (node :: nodes) (next + 1) where
  keys_nodup := by
    rw [List.map_cons, List.nodup_cons]
    refine ⟨?_, hlinked.keys_nodup⟩
    intro hmem
    obtain ⟨other, hother, hkey⟩ := List.mem_map.mp hmem
    exact hfresh (hkey ▸ hlinked.entry_of_node other hother)
  ids_nodup := by
    rw [List.map_cons, List.nodup_cons]
    refine ⟨?_, hlinked.ids_nodup⟩
    intro hmem
    obtain ⟨other, hother, hsame⟩ := List.mem_map.mp hmem
    have hlt := hlinked.id_lt other hother
    exact absurd (hsame.trans hid) hlt.ne
  id_lt other hother := by
    rcases List.mem_cons.mp hother with rfl | hrest
    · exact hid ▸ Nat.lt_succ_self _
    · exact (hlinked.id_lt other hrest).trans (Nat.lt_succ_self _)
  entry_of_node other hother := by
    rw [Finmap.mem_insert]
    rcases List.mem_cons.mp hother with rfl | hrest
    · exact Or.inl rfl
    · exact Or.inr (hlinked.entry_of_node other hrest)
  node_of_entry other found hfound := by
    rcases lookup_insert_cases hfound with ⟨rfl, rfl⟩ | ⟨-, hold⟩
    · rw [hiter]
      exact ⟨node, List.mem_cons_self, hid, rfl⟩
    · obtain ⟨own, hown, hown'⟩ := hlinked.node_of_entry other found hold
      exact ⟨own, List.mem_cons_of_mem _ hown, hown'⟩

theorem mem_keys_iff (hlinked : Linked id key iter entries nodes next) :
    wanted ∈ nodes.map key ↔ wanted ∈ entries := by
  constructor
  · intro hmem
    obtain ⟨node, hnode, rfl⟩ := List.mem_map.mp hmem
    exact hlinked.entry_of_node node hnode
  · intro hmem
    obtain ⟨entry, hlookup⟩ := Finmap.mem_iff.mp hmem
    obtain ⟨node, hnode, -, hkey⟩ := hlinked.node_of_entry wanted entry hlookup
    exact List.mem_map.mpr ⟨node, hnode, hkey⟩

theorem enumerates (hlinked : Linked id key iter entries nodes next) :
    Enumerates (nodes.map key) entries := by
  refine ⟨hlinked.keys_nodup, ?_⟩
  ext wanted
  rw [List.mem_toFinset, hlinked.mem_keys_iff, Finmap.mem_keys]

theorem length_eq_size (hlinked : Linked id key iter entries nodes next) :
    nodes.length = size entries := by
  have hcard := congrArg Finset.card hlinked.enumerates.2
  rw [List.toFinset_card_of_nodup hlinked.keys_nodup, List.length_map] at hcard
  rw [hcard, card_keys]

end Linked

/-! ### The map in the order of the list -/

/-- What a map holds, in the order of a list of nodes. -/
def inOrder (key : N → K) (read : K → E → A) (entries : UnorderedMap K E) (nodes : List N) :
    List A :=
  nodes.filterMap fun node => (entries.lookup (key node)).map (read (key node))

section InOrder

variable {key : N → K} {read : K → E → A} {keyOf : A → K} {entries entries' : UnorderedMap K E}
  {nodes : List N} {wanted : K} {entry : E}

theorem inOrder_cons (node : N) (hlookup : entries.lookup (key node) = some entry)
    (nodes : List N) :
    inOrder key read entries (node :: nodes) =
      read (key node) entry :: inOrder key read entries nodes := by
  simp [inOrder, hlookup]

theorem inOrder_cons_none {node : N} (hlookup : entries.lookup (key node) = none)
    (nodes : List N) :
    inOrder key read entries (node :: nodes) = inOrder key read entries nodes := by
  simp [inOrder, hlookup]

theorem inOrder_congr
    (hagree : ∀ node ∈ nodes, entries'.lookup (key node) = entries.lookup (key node)) :
    inOrder key read entries' nodes = inOrder key read entries nodes := by
  unfold inOrder
  apply List.filterMap_congr
  intro node hnode
  rw [hagree node hnode]

theorem inOrder_without (hkey : ∀ wanted entry, keyOf (read wanted entry) = wanted)
    (hagree : ∀ other, other ≠ wanted → entries'.lookup other = entries.lookup other) :
    inOrder key read entries' (Recency.without key wanted nodes) =
      Recency.without keyOf wanted (inOrder key read entries nodes) := by
  induction nodes with
  | nil => rfl
  | cons node rest ih =>
      by_cases heq : key node = wanted
      · have hskip : Recency.without key wanted (node :: rest) =
            Recency.without key wanted rest := by
          simp [Recency.without, heq]
        rw [hskip, ih]
        cases hlookup : entries.lookup (key node) with
        | none => rw [inOrder_cons_none hlookup]
        | some entry =>
            rw [inOrder_cons node hlookup]
            simp [Recency.without, hkey, heq]
      · have hkeep : Recency.without key wanted (node :: rest) =
            node :: Recency.without key wanted rest := by
          simp [Recency.without, heq]
        rw [hkeep]
        cases hlookup : entries.lookup (key node) with
        | none =>
            rw [inOrder_cons_none hlookup, inOrder_cons_none ((hagree _ heq).trans hlookup), ih]
        | some entry =>
            rw [inOrder_cons node hlookup, inOrder_cons node ((hagree _ heq).trans hlookup), ih]
            simp [Recency.without, hkey, heq]

theorem map_keyOf_inOrder (hkey : ∀ wanted entry, keyOf (read wanted entry) = wanted)
    (hall : ∀ node ∈ nodes, key node ∈ entries) :
    (inOrder key read entries nodes).map keyOf = nodes.map key := by
  induction nodes with
  | nil => rfl
  | cons node rest ih =>
      obtain ⟨entry, hlookup⟩ := Finmap.mem_iff.mp (hall node List.mem_cons_self)
      rw [inOrder_cons node hlookup, List.map_cons, List.map_cons, hkey,
        ih fun other hother => hall other (List.mem_cons_of_mem _ hother)]

theorem find_inOrder_of_mem (hkey : ∀ wanted entry, keyOf (read wanted entry) = wanted)
    (hlookup : entries.lookup wanted = some entry) (hmem : wanted ∈ nodes.map key) :
    Recency.find keyOf wanted (inOrder key read entries nodes) = some (read wanted entry) := by
  induction nodes with
  | nil => exact absurd hmem (by simp)
  | cons node rest ih =>
      by_cases heq : key node = wanted
      · subst heq
        rw [inOrder_cons node hlookup]
        have hself : Recency.find keyOf (keyOf (read (key node) entry))
            (read (key node) entry :: inOrder key read entries rest) =
              some (read (key node) entry) := Recency.find_cons_self _ _
        rwa [hkey] at hself
      · have hrest : wanted ∈ rest.map key := by
          rw [List.map_cons, List.mem_cons] at hmem
          exact hmem.resolve_left (Ne.symm heq)
        rw [← ih hrest]
        cases hnode : entries.lookup (key node) with
        | none => rw [inOrder_cons_none hnode]
        | some first =>
            rw [inOrder_cons node hnode]
            apply Recency.find_cons_of_ne
            rwa [hkey]

end InOrder

namespace Linked

variable {id : N → Nat} {key : N → K} {iter : E → Nat} {read : K → E → A} {keyOf : A → K}
  {entries : UnorderedMap K E} {nodes : List N} {next : Nat}

theorem map_keyOf_inOrder (hlinked : Linked id key iter entries nodes next)
    (hkey : ∀ wanted entry, keyOf (read wanted entry) = wanted) :
    (inOrder key read entries nodes).map keyOf = nodes.map key :=
  SoulCoreKit.map_keyOf_inOrder hkey hlinked.entry_of_node

theorem find_inOrder (hlinked : Linked id key iter entries nodes next)
    (hkey : ∀ wanted entry, keyOf (read wanted entry) = wanted) (wanted : K) :
    Recency.find keyOf wanted (inOrder key read entries nodes) =
      (entries.lookup wanted).map (read wanted) := by
  cases hlookup : entries.lookup wanted with
  | none =>
      rw [Option.map_none, Recency.find_eq_none_iff, hlinked.map_keyOf_inOrder hkey,
        hlinked.mem_keys_iff]
      exact Finmap.lookup_eq_none.mp hlookup
  | some entry =>
      apply find_inOrder_of_mem hkey hlookup
      exact hlinked.mem_keys_iff.mpr (Finmap.mem_of_lookup_eq_some hlookup)

end Linked

end SoulCoreKit
