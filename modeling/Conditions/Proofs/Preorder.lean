import Conditions.Node.Visit

/-!
# What a visit notes

The place of a node below another one is a path, each number of which tells which of the nodes below
is next. In the order of the paths, nodes come from left to right, a node before those below it. In
this order a visit notes just the nodes that there is a handler for, apart from those below a node
whose handler leaves them out.
-/

namespace Conditions

/-- There is a handler for the node, and it leaves out the nodes below. -/
def Handlers.Prunes {α : Type} (handlers : Handlers α) (n : Node) : Prop :=
  ∃ h, handlers n.kind = some h ∧ h.descends n = false

namespace Node

/-- The node at a path. -/
def at? (n : Node) : List Nat → Option Node
  | [] => some n
  | k :: path => n.children[k]?.bind (·.at? path)

/-- There is a node at the path, and a handler for it, and no handler leaves out what is below one
of the nodes on the way to it. -/
structure NotedAt {α : Type} (handlers : Handlers α) (n : Node) (path : List Nat) : Prop where
  handled : ∃ m, n.at? path = some m ∧ (handlers m.kind).isSome
  shown : ∀ above m, above <+: path → above ≠ path → n.at? above = some m → ¬ handlers.Prunes m

/-- The paths are those with the property, in order, and the nodes are at the paths. -/
structure Lists (P : List Nat → Prop) (at? : List Nat → Option Node) (nodes : List Node)
    (paths : List (List Nat)) : Prop where
  ascending : paths.Pairwise (· < ·)
  mem_iff : ∀ path, path ∈ paths ↔ P path
  nodes_eq : nodes.map some = paths.map at?

section
variable {α : Type} {handlers : Handlers α} {n : Node} {k : Nat} {path : List Nat}

theorem notedAt_nil : n.NotedAt handlers [] ↔ (handlers n.kind).isSome := by
  constructor
  · rintro ⟨⟨m, hm, hhandled⟩, -⟩
    cases hm
    exact hhandled
  · intro hhandled
    refine ⟨⟨n, rfl, hhandled⟩, fun above m habove hne => ?_⟩
    exact absurd (List.prefix_nil.mp habove) hne

theorem notedAt_cons :
    n.NotedAt handlers (k :: path) ↔
      ¬ handlers.Prunes n ∧ ∃ child, n.children[k]? = some child ∧ child.NotedAt handlers path := by
  constructor
  · rintro ⟨⟨m, hm, hhandled⟩, hshown⟩
    obtain ⟨child, hchild, hm⟩ := Option.bind_eq_some_iff.mp hm
    refine ⟨hshown [] n List.nil_prefix (by simp) rfl, child, hchild, ⟨m, hm, hhandled⟩, ?_⟩
    intro above m habove hne hat
    refine hshown (k :: above) m (List.cons_prefix_cons.mpr ⟨rfl, habove⟩) (by simpa using hne) ?_
    rw [at?, hchild]
    exact hat
  · rintro ⟨hroot, child, hchild, ⟨m, hm, hhandled⟩, hshown⟩
    have hat (rest : List Nat) : n.at? (k :: rest) = child.at? rest := by rw [at?, hchild]; rfl
    refine ⟨⟨m, (hat path).trans hm, hhandled⟩, fun above m' habove hne hm' => ?_⟩
    cases above with
    | nil =>
      cases hm'
      exact hroot
    | cons j above =>
      obtain ⟨rfl, hrest⟩ := List.cons_prefix_cons.mp habove
      exact hshown above m' hrest (fun heq => hne (heq ▸ rfl)) ((hat above).symm.trans hm')

/-! ## Nodes side by side -/

/-- The node at a path that begins with the choice of one of the nodes. -/
def atAmong? (ns : List Node) : List Nat → Option Node
  | [] => none
  | k :: path => ns[k]?.bind (·.at? path)

/-- The path begins with the choice of one of the nodes, and goes on to one that is noted. -/
def NotedAmong (handlers : Handlers α) (ns : List Node) : List Nat → Prop
  | [] => False
  | k :: path => ∃ n, ns[k]? = some n ∧ n.NotedAt handlers path

/-- The path that begins one node further to the right. -/
def further : List Nat → List Nat
  | [] => []
  | k :: path => (k + 1) :: path

theorem further_lt {path path' : List Nat} (h : path < path') : further path < further path' := by
  cases path' with
  | nil => exact absurd h (List.not_lt_nil _)
  | cons k' rest' =>
    cases path with
    | nil => exact List.nil_lt_cons _ _
    | cons k rest =>
      rw [List.cons_lt_cons_iff] at h
      rw [further, further, List.cons_lt_cons_iff]
      exact h.imp Nat.succ_lt_succ fun ⟨heq, hlt⟩ => ⟨congrArg (· + 1) heq, hlt⟩

theorem further_eq_nil {path : List Nat} : further path = [] ↔ path = [] := by
  cases path <;> simp [further]

theorem further_eq_cons {path rest : List Nat} :
    further path = k :: rest ↔ ∃ j, k = j + 1 ∧ path = j :: rest := by
  cases path with
  | nil => simp [further]
  | cons j path =>
    simp only [further, List.cons.injEq]
    constructor
    · rintro ⟨rfl, rfl⟩
      exact ⟨j, rfl, rfl, rfl⟩
    · rintro ⟨j', rfl, rfl, rfl⟩
      exact ⟨rfl, rfl⟩

theorem atAmong?_further (ns : List Node) :
    atAmong? (n :: ns) (further path) = atAmong? ns path := by
  cases path <;> rfl

theorem lists_nil : Lists (NotedAmong handlers []) (atAmong? []) [] [] where
  ascending := .nil
  mem_iff path := by cases path <;> simp [NotedAmong]
  nodes_eq := rfl

/-- What is noted in the first of some nodes comes before what is noted in the others. -/
theorem Lists.cons {ns nodes nodes' : List Node} {paths paths' : List (List Nat)}
    (h : Lists (n.NotedAt handlers) n.at? nodes paths)
    (h' : Lists (NotedAmong handlers ns) (atAmong? ns) nodes' paths') :
    Lists (NotedAmong handlers (n :: ns)) (atAmong? (n :: ns)) (nodes ++ nodes')
      (paths.map (0 :: ·) ++ paths'.map further) where
  ascending := by
    refine List.pairwise_append.mpr ⟨?_, ?_, fun path hpath path' hpath' => ?_⟩
    · exact h.ascending.map _ fun _ _ hlt => List.cons_lt_cons_iff.mpr (.inr ⟨rfl, hlt⟩)
    · exact h'.ascending.map _ fun _ _ => further_lt
    · obtain ⟨rest, -, rfl⟩ := List.mem_map.mp hpath
      obtain ⟨path', hmem, rfl⟩ := List.mem_map.mp hpath'
      cases path' with
      | nil => exact ((h'.mem_iff []).mp hmem).elim
      | cons k rest' => exact List.cons_lt_cons_iff.mpr (.inl (Nat.succ_pos k))
  mem_iff path := by
    rw [List.mem_append, List.mem_map, List.mem_map]
    cases path with
    | nil => simp [further_eq_nil, h'.mem_iff, NotedAmong]
    | cons k rest =>
      simp only [further_eq_cons]
      cases k with
      | zero => simp [NotedAmong, h.mem_iff]
      | succ k => simp [NotedAmong, h'.mem_iff]
  nodes_eq := by
    rw [List.map_append, List.map_append, h.nodes_eq, h'.nodes_eq, List.map_map, List.map_map]
    simp only [Function.comp_def, atAmong?_further]
    rfl

/-! ## The visit -/

theorem visitWith_of_none (hkind : handlers n.kind = none) :
    n.visitWith handlers =
      ⟨n.children.flatMap fun child => (child.visitWith handlers).noted, none⟩ := by
  rw [visitWith]
  simp only [hkind, List.flatMap_subtype, List.unattach_attach]

theorem visitWith_of_some {h : Handler α} (hkind : handlers n.kind = some h) :
    n.visitWith handlers =
      ⟨n :: if h.descends n then n.children.flatMap fun child => (child.visitWith handlers).noted
        else [], some (h.answer n)⟩ := by
  rw [visitWith]
  simp only [hkind, List.flatMap_subtype, List.unattach_attach]

/-- What is noted in nodes side by side is listed if it is in each of them. -/
theorem exists_lists_among {ns : List Node}
    (h : ∀ n ∈ ns, ∃ paths,
      Lists (n.NotedAt handlers) n.at? (n.visitWith handlers).noted paths) :
    ∃ paths, Lists (NotedAmong handlers ns) (atAmong? ns)
      (ns.flatMap fun n => (n.visitWith handlers).noted) paths := by
  induction ns with
  | nil => exact ⟨[], lists_nil⟩
  | cons n ns ih =>
    obtain ⟨paths, hpaths⟩ := h n List.mem_cons_self
    obtain ⟨paths', hpaths'⟩ := ih fun n' hn' => h n' (List.mem_cons_of_mem n hn')
    exact ⟨_, hpaths.cons hpaths'⟩

/-- A node is noted by its own handler, and the nodes below it unless they are left out. -/
theorem notedAt_iff :
    n.NotedAt handlers path ↔
      path = [] ∧ (handlers n.kind).isSome ∨
        ¬ handlers.Prunes n ∧ NotedAmong handlers n.children path := by
  cases path with
  | nil => simp [notedAt_nil, NotedAmong]
  | cons k rest => simp [notedAt_cons, NotedAmong]

theorem Lists.map_at? {nodes : List Node} {paths : List (List Nat)}
    (h : Lists (NotedAmong handlers n.children) (atAmong? n.children) nodes paths) :
    nodes.map some = paths.map n.at? := by
  rw [h.nodes_eq]
  refine List.map_congr_left fun path hpath => ?_
  cases path with
  | nil => exact ((h.mem_iff []).mp hpath).elim
  | cons k rest => rfl

theorem Lists.nil_lt {nodes : List Node} {paths : List (List Nat)}
    (h : Lists (NotedAmong handlers n.children) (atAmong? n.children) nodes paths)
    (hpath : path ∈ paths) : [] < path := by
  cases path with
  | nil => exact ((h.mem_iff []).mp hpath).elim
  | cons k rest => exact List.nil_lt_cons _ _

/-- What a visit notes is listed. The induction is on the node: it is noted before what is noted in
the nodes below it. -/
theorem exists_lists (handlers : Handlers α) (n : Node) :
    ∃ paths, Lists (n.NotedAt handlers) n.at? (n.visitWith handlers).noted paths := by
  have ih : ∀ child ∈ n.children, ∃ paths,
      Lists (child.NotedAt handlers) child.at? (child.visitWith handlers).noted paths :=
    fun child _ => exists_lists handlers child
  obtain ⟨paths, hbelow⟩ := exists_lists_among ih
  cases hkind : handlers n.kind with
  | none =>
    rw [visitWith_of_none hkind]
    have hopen : ¬ handlers.Prunes n := by simp [Handlers.Prunes, hkind]
    refine ⟨paths, hbelow.ascending, fun path => ?_, hbelow.map_at?⟩
    simp [notedAt_iff, hkind, hopen, hbelow.mem_iff]
  | some h =>
    rw [visitWith_of_some hkind]
    cases hdescends : h.descends n with
    | false =>
      have hpruned : handlers.Prunes n := ⟨h, hkind, hdescends⟩
      refine ⟨[[]], List.pairwise_singleton _ _, fun path => ?_, ?_⟩
      · simp [notedAt_iff, hkind, hpruned]
      · simp [at?]
    | true =>
      have hopen : ¬ handlers.Prunes n := by simp [Handlers.Prunes, hkind, hdescends]
      refine ⟨[] :: paths, ?_, fun path => ?_, ?_⟩
      · exact List.pairwise_cons.mpr ⟨fun path => hbelow.nil_lt, hbelow.ascending⟩
      · simp [notedAt_iff, hkind, hopen, hbelow.mem_iff]
      · simp [at?, hbelow.map_at?]
termination_by sizeOf n
decreasing_by exact sizeOf_lt_of_mem_children (by assumption)

end

/-- A visit notes nodes in preorder, each at most once: those that there is a handler for, apart
from what is below a node whose handler leaves that out. Where there is no handler, nothing is left
out. The answer is that of the handler for the node itself, whatever there is below. -/
theorem visitWith_notes_preorder {α : Type} (handlers : Handlers α) (n : Node) :
    (∃ paths : List (List Nat), paths.Pairwise (· < ·) ∧
      (∀ path, path ∈ paths ↔ n.NotedAt handlers path) ∧
      (n.visitWith handlers).noted.map some = paths.map n.at?) ∧
    (n.visitWith handlers).answer? = (handlers n.kind).map (·.answer n) := by
  obtain ⟨paths, hpaths⟩ := exists_lists handlers n
  refine ⟨⟨paths, hpaths.ascending, hpaths.mem_iff, hpaths.nodes_eq⟩, ?_⟩
  cases hkind : handlers n.kind with
  | none => rw [visitWith_of_none hkind, Option.map_none]
  | some h => rw [visitWith_of_some hkind, Option.map_some]

end Node

end Conditions
