import Unnest.Proofs.Entries
import Unnest.Settings.Node

/-!
# What is read back from layers

A table that is put where nothing is has its keys in lower case afterwards, at every level, and tables under
keys of one form are merged (`Node.settled`). A key that no other key of its table clashes with keeps its value
(`Node.get?_settled`), and so does such a key at the top of a layer (`Node.get?_overlay`). `Node.configured?`
follows such keys from the top of a layer; what it finds is found in the settings under the same keys in lower
case, and under no others. It finds the same whatever the order in which entries are taken
(`Node.exists_configured?_layer`).
-/

namespace Unnest.Settings.Node
open Text

/-- A value as it is once it is put where nothing is. -/
def settled : Node → Node
  | table entries => putAll (table []) entries
  | value => value

/-- The value of the only key of a table that has a form in lower case. -/
def only? (node : Node) (key : String) : Option Node :=
  match node.entries.filter fun entry => lowercase entry.1 = key with
  | [(_, value)] => some value
  | _ => none

/-- Whether the path that a key spells starts at a key in lower case. -/
def opens (key spelled : String) : Bool :=
  match path spelled with
  | .member first :: _ => lowercase first = key
  | _ => false

/-- The value of the only key at the top of a layer whose path starts at a key in lower case, if it goes no
further. -/
def top? (layer : List (String × Node)) (key : String) : Option Node :=
  match layer.filter fun entry => opens key entry.1 with
  | [(spelled, value)] => if (path spelled).length = 1 then some value else none
  | _ => none

/-- The value that keys lead to in nested tables, if no other key on the way has the same form. -/
def at? (node : Node) : List String → Option Node
  | [] => some node
  | key :: keys => (node.only? key).bind fun value => value.at? keys

/-- The value that keys lead to in a layer, if no other key on the way has the same form. -/
def configured? (layer : List (String × Node)) : List String → Option Node
  | [] => none
  | key :: keys => (top? layer key).bind fun value => value.at? keys

/-- The text of a value; any other value than a text has none. -/
def text? : Node → Option String
  | text s => some s
  | _ => none

/-- The text that keys lead to in a layer. -/
def configuredText? (layer : List (String × Node)) (keys : List String) : Option String :=
  (configured? layer keys).bind text?

theorem configured?_of_text? {layer : List (String × Node)} {keys : List String} {s : String}
    (h : configuredText? layer keys = some s) : configured? layer keys = some (text s) := by
  obtain ⟨node, hnode, htext⟩ := Option.bind_eq_some_iff.1 h
  cases node with
  | text t => rw [hnode, Option.some_inj.1 htext]
  | _ => cases htext

variable {root node value : Node} {key spelled : String} {entries layer : List (String × Node)}

/-! ### One entry among many -/

theorem hits_of_filter {hits : String × Node → Bool} {found : String × Node} (h : entries.filter hits = [found]) :
    hits found = true := by
  have hfound : found ∈ entries.filter hits := by
    rw [h]
    exact List.mem_singleton_self found
  exact (List.mem_filter.1 hfound).2

section
variable {step : Node → String × Node → Option Node} {hits : String × Node → Bool} {last : Node}
  (miss : ∀ root entry next, hits entry = false → step root entry = some next →
    Entries.get? next.entries key = Entries.get? root.entries key)
include miss

theorem get?_foldlM_of_forall (h : ∀ entry ∈ entries, hits entry = false) (hlast : entries.foldlM step root = some last) :
    Entries.get? last.entries key = Entries.get? root.entries key := by
  induction entries generalizing root with
  | nil =>
    cases hlast
    rfl
  | cons entry rest ih =>
    obtain ⟨hentry, hrest⟩ := List.forall_mem_cons.1 h
    rw [List.foldlM_cons] at hlast
    obtain ⟨next, hnext, hlast⟩ := Option.bind_eq_some_iff.1 hlast
    rw [ih hrest hlast, miss root entry next hentry hnext]

/-- If one entry alone decides about a key, it does so wherever it stands. -/
theorem get?_foldlM_of_filter {found : String × Node} (hroot : Entries.get? root.entries key = none)
    (hit : ∀ root next, Entries.get? root.entries key = none → step root found = some next →
      Entries.get? next.entries key = some value)
    (h : entries.filter hits = [found]) (hlast : entries.foldlM step root = some last) :
    Entries.get? last.entries key = some value := by
  induction entries generalizing root with
  | nil => cases h
  | cons entry rest ih =>
    rw [List.foldlM_cons] at hlast
    obtain ⟨next, hnext, hlast⟩ := Option.bind_eq_some_iff.1 hlast
    by_cases hentry : hits entry = true
    · rw [List.filter_cons_of_pos hentry] at h
      obtain ⟨rfl, hrest⟩ := List.cons.inj h
      have hlater : ∀ entry ∈ rest, hits entry = false := by simpa [List.filter_eq_nil_iff] using hrest
      rw [get?_foldlM_of_forall miss hlater hlast, hit root next hroot hnext]
    · rw [List.filter_cons_of_neg hentry] at h
      exact ih (by rw [miss root entry next (by simpa using hentry) hnext, hroot]) h hlast

end

/-! ### Putting -/

theorem entries_put (root : Node) (spelled : String) (value : Node) : ∃ merged,
    (root.put spelled value).entries = Entries.put root.entries (lowercase spelled) merged ∧
      (Entries.get? root.entries (lowercase spelled) = none → merged = value.settled) := by
  cases value with
  | table incoming =>
    refine ⟨_, rfl, fun h => ?_⟩
    rw [h]
    rfl
  | _ => exact ⟨_, rfl, fun _ => rfl⟩

theorem get?_put_of_ne (h : lowercase spelled ≠ key) :
    Entries.get? (root.put spelled value).entries key = Entries.get? root.entries key := by
  obtain ⟨merged, he, -⟩ := entries_put root spelled value
  rw [he, Entries.get?_put, if_neg h]

theorem get?_put_of_none (h : Entries.get? root.entries (lowercase spelled) = none) :
    Entries.get? (root.put spelled value).entries (lowercase spelled) = some value.settled := by
  obtain ⟨merged, he, hm⟩ := entries_put root spelled value
  rw [he, Entries.get?_put, if_pos rfl, hm h]

theorem nodup_put (h : (Entries.keys root.entries).Nodup) :
    (Entries.keys (root.put spelled value).entries).Nodup := by
  obtain ⟨merged, he, -⟩ := entries_put root spelled value
  rw [he]
  exact Entries.nodup_put _ _ h

/-- To put entries is a fold in which nothing fails. -/
theorem foldlM_put (root : Node) (entries : List (String × Node)) :
    entries.foldlM (fun root entry => some (root.put entry.1 entry.2)) root = some (root.putAll entries) := by
  induction entries generalizing root with
  | nil => rfl
  | cons entry rest ih => exact ih (root.put entry.1 entry.2)

theorem get?_put_of_miss (root : Node) (entry : String × Node) (next : Node)
    (h : decide (lowercase entry.1 = key) = false) (hnext : some (root.put entry.1 entry.2) = some next) :
    Entries.get? next.entries key = Entries.get? root.entries key := by
  cases hnext
  exact get?_put_of_ne (of_decide_eq_false h)

theorem nodup_putAll (h : (Entries.keys root.entries).Nodup) : (Entries.keys (root.putAll entries).entries).Nodup := by
  induction entries generalizing root with
  | nil => exact h
  | cons entry rest ih => exact ih (nodup_put h)

/-! ### Settled tables -/

theorem get?_settled (h : node.only? key = some value) :
    Entries.get? node.settled.entries key = some value.settled := by
  cases node with
  | table entries =>
    rw [only?] at h
    split at h
    · rename_i spelled found hfilter
      cases h
      obtain rfl : lowercase spelled = key := of_decide_eq_true (hits_of_filter hfilter)
      refine get?_foldlM_of_filter get?_put_of_miss rfl (fun root next hroot hnext => ?_) hfilter
        (foldlM_put (table []) entries)
      cases hnext
      exact get?_put_of_none hroot
    · cases h
  | _ => cases h

theorem nodup_settled (node : Node) : (Entries.keys node.settled.entries).Nodup := by
  cases node with
  | table entries => exact nodup_putAll List.nodup_nil
  | _ => exact List.nodup_nil

/-- The keys of a settled table are those of the table in lower case. -/
theorem mem_keys_settled (h : key ∈ Entries.keys node.settled.entries) :
    ∃ entry ∈ node.entries, lowercase entry.1 = key := by
  cases node with
  | table entries =>
    by_contra hne
    have hmiss : ∀ entry ∈ entries, decide (lowercase entry.1 = key) = false := fun entry he =>
      decide_eq_false fun heq => hne ⟨entry, he, heq⟩
    rw [← Entries.get?_isSome_iff, settled, get?_foldlM_of_forall get?_put_of_miss hmiss (foldlM_put (table []) entries)]
      at h
    cases h
  | _ => cases h

/-! ### Layers -/

theorem exists_path (spelled : String) : ∃ first rest, path spelled = .member first :: rest := by
  unfold path
  dsimp only
  split
  · exact ⟨_, _, rfl⟩
  · split
    · exact ⟨_, _, rfl⟩
    · exact ⟨_, _, rfl⟩

section
variable {room : Nat} {next last : Node}

theorem get?_assign_of_miss (root : Node) (entry : String × Node) (next : Node) (h : opens key entry.1 = false)
    (hnext : assign room entry.2 (path entry.1) root = some next) :
    Entries.get? next.entries key = Entries.get? root.entries key := by
  obtain ⟨first, rest, hpath⟩ := exists_path entry.1
  rw [opens, hpath] at h
  have hne : lowercase first ≠ key := of_decide_eq_false h
  rw [hpath] at hnext
  cases rest with
  | nil =>
    cases hnext
    exact get?_put_of_ne hne
  | cons step rest =>
    obtain ⟨inner, -, hnext⟩ := Option.bind_eq_some_iff.1 hnext
    cases hnext
    exact (Entries.get?_put _ _ _ _).trans (if_neg hne)

theorem get?_overlay (h : top? layer key = some value) (hlast : (table []).overlay room layer = some last) :
    Entries.get? last.entries key = some value.settled := by
  unfold top? at h
  split at h
  · rename_i spelled found hfilter
    split at h
    · rename_i hlength
      cases h
      obtain ⟨first, rest, hpath⟩ := exists_path spelled
      obtain rfl : rest = [] := by simpa [hpath] using hlength
      have hopens : opens key spelled := hits_of_filter hfilter
      obtain rfl : lowercase first = key := by simpa [opens, hpath] using hopens
      refine get?_foldlM_of_filter get?_assign_of_miss rfl (fun root next hroot hnext => ?_) hfilter hlast
      change assign room value (path spelled) root = some next at hnext
      rw [hpath] at hnext
      cases hnext
      exact get?_put_of_none hroot
    · cases h
  · cases h

end

/-! ### Entries in any order -/

section
variable {order : Order} {trail : List String}

theorem inner_eq (order : Order) (trail : List String) (entries : List (String × Node)) :
    order.inner trail entries = entries.map fun entry => (entry.1, order.node (entry.1 :: trail) entry.2) := by
  induction entries with
  | nil => rfl
  | cons entry rest ih => rw [List.map_cons, ← ih, Order.inner]

theorem perm_layer (order : Order) (trail : List String) (entries : List (String × Node)) :
    (order.layer trail entries).Perm
      (entries.map fun entry => (entry.1, order.node (entry.1 :: trail) entry.2)) := by
  rw [← inner_eq]
  exact order.perm trail _

/-- The only entry of a kind is the only one in any order. -/
theorem filter_layer (order : Order) (trail : List String) (hits : String → Bool) {spelled : String}
    (h : entries.filter (fun entry => hits entry.1) = [(spelled, value)]) :
    (order.layer trail entries).filter (fun entry => hits entry.1) =
      [(spelled, order.node (spelled :: trail) value)] := by
  rw [← List.perm_singleton]
  refine ((perm_layer order trail entries).filter _).trans ?_
  rw [List.filter_map]
  show ((entries.filter fun entry => hits entry.1).map _).Perm _
  rw [h]
  exact .refl _

theorem entries_node (node : Node) : (order.node trail node).entries = order.layer trail node.entries := by
  cases node with
  | table entries => rfl
  | _ => exact (List.perm_nil.1 (order.perm trail [])).symm

theorem exists_only?_node (order : Order) (trail : List String) (h : node.only? key = some value) :
    ∃ spelled, (order.node trail node).only? key = some (order.node (spelled :: trail) value) := by
  unfold only? at h
  split at h
  · rename_i spelled found hfilter
    cases h
    refine ⟨spelled, ?_⟩
    rw [only?, entries_node, filter_layer order trail (fun spelled => lowercase spelled = key) hfilter]
  · cases h

theorem exists_at?_node (order : Order) (trail : List String) {keys : List String} (h : node.at? keys = some value) :
    ∃ trail', (order.node trail node).at? keys = some (order.node trail' value) := by
  induction keys generalizing node trail with
  | nil =>
    cases h
    exact ⟨trail, rfl⟩
  | cons key keys ih =>
    obtain ⟨inner, hinner, h⟩ := Option.bind_eq_some_iff.1 h
    obtain ⟨spelled, hspelled⟩ := exists_only?_node order trail hinner
    obtain ⟨trail', hfound⟩ := ih (spelled :: trail) h
    exact ⟨trail', by rw [at?, hspelled, Option.bind_some, hfound]⟩

/-- Keys lead to the same value in whatever order entries are taken. -/
theorem exists_configured?_layer (order : Order) (trail : List String) {keys : List String}
    (h : configured? layer keys = some value) :
    ∃ trail', configured? (order.layer trail layer) keys = some (order.node trail' value) := by
  cases keys with
  | nil => cases h
  | cons key keys =>
    obtain ⟨inner, hinner, h⟩ := Option.bind_eq_some_iff.1 h
    have htop : ∃ spelled, top? (order.layer trail layer) key = some (order.node (spelled :: trail) inner) := by
      unfold top? at hinner
      split at hinner
      · rename_i spelled found hfilter
        split at hinner
        · rename_i hlength
          cases hinner
          refine ⟨spelled, ?_⟩
          rw [top?, filter_layer order trail (opens key) hfilter]
          exact if_pos hlength
        · cases hinner
      · cases hinner
    obtain ⟨spelled, htop⟩ := htop
    obtain ⟨trail', hfound⟩ := exists_at?_node order (spelled :: trail) h
    exact ⟨trail', by rw [configured?, htop, Option.bind_some, hfound]⟩

theorem mem_entries_of_node {entry : String × Node} (h : entry ∈ (order.node trail node).entries) :
    ∃ entry' ∈ node.entries, entry'.1 = entry.1 := by
  rw [entries_node] at h
  obtain ⟨entry', hentry', rfl⟩ := List.mem_map.1 ((perm_layer order trail node.entries).subset h)
  exact ⟨entry', hentry', rfl⟩

end

end Unnest.Settings.Node
