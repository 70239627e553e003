import Mathlib.Data.List.Nodup
import Mathlib.Logic.Function.Basic

/-!
Doubly linked lists threaded through the elements themselves. An element keeps its
successor and the address of the link word that points at it, so that it can be taken
out of the list without a traversal. The list operations write one link word at a time.
-/

namespace IntrusiveList

inductive LinkField (α : Type) where
  | head
  | next (element : α)
  deriving DecidableEq, Repr

structure ListEntry (α : Type) where
  leNext : Option α
  lePrev : Option (LinkField α)
  deriving DecidableEq, Repr

structure LinkedList (α : Type) where
  lhFirst : Option α
  entry : α → ListEntry α

namespace LinkedList

variable {α : Type}

def load (list : LinkedList α) : LinkField α → Option α
  | .head => list.lhFirst
  | .next element => (list.entry element).leNext

def init (list : LinkedList α) : LinkedList α :=
  { list with lhFirst := none }

/-- The loop over a list; `none` when the fuel runs out before the list ends. -/
def forEach {β : Type} (list : LinkedList α) (body : β → α → β) :
    Nat → Option α → β → Option β
  | _, none, result => some result
  | 0, some _, _ => none
  | fuel + 1, some element, result =>
      forEach list body fuel (list.entry element).leNext (body result element)

def Chain (list : LinkedList α) : LinkField α → List α → Prop
  | field, [] => list.load field = none
  | field, element :: rest =>
      list.load field = some element ∧ (list.entry element).lePrev = some field ∧
        Chain list (.next element) rest

inductive Reaches (list : LinkedList α) : LinkField α → α → Prop
  | here {field : LinkField α} {element : α} :
      list.load field = some element → Reaches list field element
  | later {field : LinkField α} {first element : α} :
      list.load field = some first → Reaches list (.next first) element →
      Reaches list field element

structure WellLinked (list : LinkedList α) (members : List α) : Prop where
  chain : Chain list .head members
  nodup : members.Nodup

theorem Chain.congr {list other : LinkedList α} {field : LinkField α} {members : List α}
    (chain : Chain list field members) (sameField : other.load field = list.load field)
    (sameNext : ∀ element ∈ members, other.load (.next element) = list.load (.next element))
    (samePrev : ∀ element ∈ members,
      (other.entry element).lePrev = (list.entry element).lePrev) :
    Chain other field members := by
  induction members generalizing field with
  | nil => exact sameField.trans chain
  | cons element rest ih =>
      refine ⟨sameField.trans chain.1, (samePrev element (by simp)).trans chain.2.1, ?_⟩
      apply ih chain.2.2
      · exact sameNext element (by simp)
      · exact fun member belongs => sameNext member (by simp [belongs])
      · exact fun member belongs => samePrev member (by simp [belongs])

theorem Chain.unique {list : LinkedList α} {field : LinkField α} {members others : List α}
    (chain : Chain list field members) (other : Chain list field others) : members = others := by
  induction members generalizing field others with
  | nil =>
      cases others with
      | nil => rfl
      | cons element rest =>
          have nothing : list.load field = none := chain
          simp [nothing, Chain] at other
  | cons element rest ih =>
      cases others with
      | nil =>
          have nothing : list.load field = none := other
          simp [nothing, Chain] at chain
      | cons element' rest' =>
          have same : element = element' := Option.some.inj (chain.1.symm.trans other.1)
          subst same
          rw [ih chain.2.2 other.2.2]

theorem Chain.back_field {list : LinkedList α} {field : LinkField α} {before after : List α}
    {element : α} (chain : Chain list field (before ++ element :: after)) :
    ∃ back, (list.entry element).lePrev = some back ∧
      (list.entry element).leNext = after.head? ∧
      (back = field ∧ before = [] ∨ ∃ previous ∈ before, back = .next previous) := by
  induction before generalizing field with
  | nil =>
      refine ⟨field, chain.2.1, ?_, Or.inl ⟨rfl, rfl⟩⟩
      cases after with
      | nil => exact chain.2.2
      | cons successor rest => exact chain.2.2.1
  | cons first rest ih =>
      obtain ⟨back, prev, next, place⟩ := ih chain.2.2
      refine ⟨back, prev, next, Or.inr ?_⟩
      rcases place with ⟨same, _⟩ | ⟨previous, member, same⟩
      · exact ⟨first, by simp, same⟩
      · exact ⟨previous, by simp [member], same⟩

theorem Chain.forEach {β : Type} {list : LinkedList α} {field : LinkField α} {members : List α}
    (chain : Chain list field members) (body : β → α → β) (start : β) {fuel : Nat}
    (enough : members.length ≤ fuel) :
    list.forEach body fuel (list.load field) start = some (members.foldl body start) := by
  induction members generalizing field start fuel with
  | nil =>
      have finished : list.load field = none := chain
      rw [finished, LinkedList.forEach, List.foldl_nil]
  | cons element rest ih =>
      cases fuel with
      | zero => simp at enough
      | succ fuel =>
          rw [chain.1, LinkedList.forEach, List.foldl_cons]
          exact ih chain.2.2 (body start element) (by simpa using enough)

theorem Chain.reaches_iff {list : LinkedList α} {field : LinkField α} {members : List α}
    (chain : Chain list field members) (element : α) :
    list.Reaches field element ↔ element ∈ members := by
  induction members generalizing field with
  | nil =>
      have nothing : list.load field = none := chain
      constructor
      · rintro (found | ⟨found, _⟩) <;> simp [nothing] at found
      · intro member
        exact absurd member (by simp)
  | cons first rest ih =>
      constructor
      · rintro (found | ⟨found, deeper⟩)
        · rw [chain.1] at found
          simp [Option.some.inj found]
        · rw [chain.1] at found
          rw [← Option.some.inj found] at deeper
          exact List.mem_cons_of_mem _ ((ih chain.2.2).mp deeper)
      · intro member
        rcases List.mem_cons.mp member with rfl | member
        · exact Reaches.here chain.1
        · exact Reaches.later chain.1 ((ih chain.2.2).mpr member)

theorem WellLinked.leNext_ne_self {list : LinkedList α} {before after : List α} {element : α}
    (linked : WellLinked list (before ++ element :: after)) :
    (list.entry element).leNext ≠ some element := by
  obtain ⟨_, _, next, _⟩ := linked.chain.back_field
  rw [next]
  intro same
  have tail := (List.nodup_append.mp linked.nodup).2.1
  exact (List.nodup_cons.mp tail).1 (List.mem_of_mem_head? same)

theorem WellLinked.reaches_iff {list : LinkedList α} {members : List α}
    (linked : WellLinked list members) (element : α) :
    list.Reaches .head element ↔ element ∈ members :=
  linked.chain.reaches_iff element

theorem WellLinked.unique {list : LinkedList α} {members others : List α}
    (linked : WellLinked list members) (other : WellLinked list others) : members = others :=
  linked.chain.unique other.chain

theorem WellLinked.lhFirst_eq {list : LinkedList α} {members : List α}
    (linked : WellLinked list members) : list.lhFirst = members.head? := by
  have chain := linked.chain
  cases members with
  | nil => exact chain
  | cons element rest => exact chain.1

theorem WellLinked.forEach {β : Type} {list : LinkedList α} {members : List α}
    (linked : WellLinked list members) (body : β → α → β) (start : β) {fuel : Nat}
    (enough : members.length ≤ fuel) :
    list.forEach body fuel list.lhFirst start = some (members.foldl body start) :=
  linked.chain.forEach body start enough

theorem init_wellLinked (list : LinkedList α) : WellLinked list.init [] :=
  ⟨rfl, List.nodup_nil⟩

section Updates

variable [DecidableEq α]

def setEntry (list : LinkedList α) (element : α) (entry : ListEntry α) : LinkedList α :=
  { list with entry := Function.update list.entry element entry }

def store (list : LinkedList α) (field : LinkField α) (value : Option α) : LinkedList α :=
  match field with
  | .head => { list with lhFirst := value }
  | .next element => list.setEntry element { list.entry element with leNext := value }

def setPrev (list : LinkedList α) (element : α) (field : Option (LinkField α)) : LinkedList α :=
  list.setEntry element { list.entry element with lePrev := field }

def insertHead (list : LinkedList α) (element : α) : LinkedList α :=
  let linked := list.store (.next element) list.lhFirst
  let pointedBack := match list.lhFirst with
    | some first => linked.setPrev first (some (.next element))
    | none => linked
  (pointedBack.store .head (some element)).setPrev element (some .head)

/-- `none` when the back pointer of the element is null and the last write would go through it. -/
def remove (list : LinkedList α) (element : α) : Option (LinkedList α) :=
  let bypassed := match (list.entry element).leNext with
    | some successor => list.setPrev successor (list.entry element).lePrev
    | none => list
  match (bypassed.entry element).lePrev with
  | some field => some (bypassed.store field (bypassed.entry element).leNext)
  | none => none

@[simp] theorem lhFirst_setEntry (list : LinkedList α) (element : α) (entry : ListEntry α) :
    (list.setEntry element entry).lhFirst = list.lhFirst := rfl

@[simp] theorem entry_setEntry (list : LinkedList α) (element : α) (entry : ListEntry α)
    (query : α) : (list.setEntry element entry).entry query =
      if query = element then entry else list.entry query := by
  simp [setEntry, Function.update_apply]

@[simp] theorem load_store (list : LinkedList α) (field query : LinkField α)
    (value : Option α) :
    (list.store field value).load query = if query = field then value else list.load query := by
  cases field with
  | head => cases query <;> simp [store, load]
  | next element =>
      cases query with
      | head => simp [store, load]
      | next other => by_cases same : other = element <;> simp [store, load, same]

@[simp] theorem lePrev_store (list : LinkedList α) (field : LinkField α) (value : Option α)
    (query : α) : ((list.store field value).entry query).lePrev = (list.entry query).lePrev := by
  cases field with
  | head => rfl
  | next element => by_cases same : query = element <;> simp [store, same]

@[simp] theorem load_setPrev (list : LinkedList α) (element : α) (field : Option (LinkField α))
    (query : LinkField α) : (list.setPrev element field).load query = list.load query := by
  cases query with
  | head => rfl
  | next other => by_cases same : other = element <;> simp [setPrev, load, same]

@[simp] theorem lePrev_setPrev (list : LinkedList α) (element : α) (field : Option (LinkField α))
    (query : α) : ((list.setPrev element field).entry query).lePrev =
      if query = element then field else (list.entry query).lePrev := by
  by_cases same : query = element <;> simp [setPrev, same]

theorem WellLinked.setEntry {list : LinkedList α} {members : List α}
    (linked : WellLinked list members) {element : α} (outside : element ∉ members)
    (entry : ListEntry α) : WellLinked (list.setEntry element entry) members := by
  have same : ∀ member ∈ members,
      (list.setEntry element entry).entry member = list.entry member := by
    intro member belongs
    rw [entry_setEntry, if_neg fun equal : member = element => outside (equal ▸ belongs)]
  refine ⟨linked.chain.congr rfl ?_ ?_, linked.nodup⟩
  · intro member belongs
    simp only [load, same member belongs]
  · intro member belongs
    rw [same member belongs]

/-! Insertion in front of the list. -/

theorem load_insertHead (list : LinkedList α) (element : α) (query : LinkField α) :
    (list.insertHead element).load query =
      if query = .head then some element
      else if query = .next element then list.lhFirst else list.load query := by
  cases first : list.lhFirst <;> simp [insertHead, first]

theorem lePrev_insertHead (list : LinkedList α) (element query : α) :
    ((list.insertHead element).entry query).lePrev =
      if query = element then some .head
      else if list.lhFirst = some query then some (.next element)
      else (list.entry query).lePrev := by
  cases first : list.lhFirst <;> simp [insertHead, first, eq_comm]

theorem WellLinked.insertHead {list : LinkedList α} {members : List α}
    (linked : WellLinked list members) {element : α} (fresh : element ∉ members) :
    WellLinked (list.insertHead element) (element :: members) := by
  refine ⟨⟨?_, ?_, ?_⟩, List.nodup_cons.mpr ⟨fresh, linked.nodup⟩⟩
  · simp [load_insertHead]
  · simp [lePrev_insertHead]
  cases members with
  | nil =>
      show (list.insertHead element).load (.next element) = none
      simp [load_insertHead, linked.lhFirst_eq]
  | cons successor rest =>
      obtain ⟨first, _, tail⟩ := linked.chain
      change list.lhFirst = some successor at first
      have parts := List.nodup_cons.mp linked.nodup
      have notElement : ∀ member ∈ successor :: rest, member ≠ element :=
        fun member belongs same => fresh (same ▸ belongs)
      refine ⟨by simp [load_insertHead, first], ?_, ?_⟩
      · rw [lePrev_insertHead, if_neg (notElement successor (by simp)), if_pos first]
      · apply tail.congr
        · simp [load_insertHead, notElement successor (by simp)]
        · intro member belongs
          simp [load_insertHead, notElement member (by simp [belongs])]
        · intro member belongs
          rw [lePrev_insertHead, if_neg (notElement member (by simp [belongs])), if_neg]
          intro same
          exact parts.1 (Option.some.inj (first.symm.trans same) ▸ belongs)

theorem entry_setEntry_of_ne (list : LinkedList α) {element other : α} (entry : ListEntry α)
    (different : other ≠ element) : (list.setEntry element entry).entry other = list.entry other := by
  simp [different]

theorem entry_store_of_ne (list : LinkedList α) {field : LinkField α} {other : α}
    (value : Option α) (different : field ≠ .next other) :
    (list.store field value).entry other = list.entry other := by
  cases field with
  | head => rfl
  | next element => exact entry_setEntry_of_ne _ _ fun same => different (by rw [same])

theorem entry_setPrev_of_ne (list : LinkedList α) {element other : α}
    (field : Option (LinkField α)) (different : other ≠ element) :
    (list.setPrev element field).entry other = list.entry other :=
  entry_setEntry_of_ne _ _ different

theorem entry_insertHead_of_ne (list : LinkedList α) {element other : α}
    (different : other ≠ element) (notFirst : list.lhFirst ≠ some other) :
    (list.insertHead element).entry other = list.entry other := by
  have elsewhere : LinkField.next element ≠ .next other := by simp [different.symm]
  rw [insertHead, entry_setPrev_of_ne _ _ different, entry_store_of_ne _ _ (by simp)]
  cases first : list.lhFirst with
  | none => exact entry_store_of_ne _ _ elsewhere
  | some successor =>
      have notSuccessor : other ≠ successor := fun same => notFirst (by rw [first, same])
      exact (entry_setPrev_of_ne _ _ notSuccessor).trans (entry_store_of_ne _ _ elsewhere)

theorem WellLinked.entry_insertHead {list : LinkedList α} {members : List α}
    (linked : WellLinked list members) {element other : α} (outside : other ∉ element :: members) :
    (list.insertHead element).entry other = list.entry other := by
  apply entry_insertHead_of_ne
  · exact fun same => outside (by simp [same])
  · intro first
    rw [linked.lhFirst_eq] at first
    exact outside (List.mem_cons_of_mem _ (List.mem_of_mem_head? first))

/-! Removal: the two link words around an element are rewritten to bypass it. -/

def unlink (list : LinkedList α) (field : LinkField α) : Option α → LinkedList α
  | some successor => (list.setPrev successor (some field)).store field (some successor)
  | none => list.store field none

theorem load_unlink (list : LinkedList α) (field query : LinkField α) (successor : Option α) :
    (list.unlink field successor).load query =
      if query = field then successor else list.load query := by
  cases successor <;> simp [unlink]

theorem lePrev_unlink (list : LinkedList α) (field : LinkField α) (successor : Option α)
    (query : α) : ((list.unlink field successor).entry query).lePrev =
      if successor = some query then some field else (list.entry query).lePrev := by
  cases successor <;> simp [unlink, eq_comm]

theorem remove_eq_unlink {list : LinkedList α} {element : α} {field : LinkField α}
    (back : (list.entry element).lePrev = some field)
    (notSelf : (list.entry element).leNext ≠ some element) :
    list.remove element = some (list.unlink field (list.entry element).leNext) := by
  cases next : (list.entry element).leNext with
  | none => simp [remove, next, back, unlink]
  | some successor =>
      have different : element ≠ successor := fun same => notSelf (by rw [next, ← same])
      simp [remove, next, back, unlink, setPrev, different]

theorem Chain.unlink {list : LinkedList α} {field back : LinkField α} {before after : List α}
    {element : α} (chain : Chain list field (before ++ element :: after))
    (nodup : (before ++ element :: after).Nodup)
    (outside : ∀ member ∈ before ++ element :: after, field ≠ .next member)
    (prev : (list.entry element).lePrev = some back) :
    Chain (list.unlink back after.head?) field (before ++ after) := by
  induction before generalizing field with
  | nil =>
      have here : back = field := Option.some.inj (prev.symm.trans chain.2.1)
      subst here
      cases after with
      | nil => simp [Chain, load_unlink]
      | cons successor rest =>
          have parts := List.nodup_cons.mp (List.nodup_cons.mp nodup).2
          refine ⟨by simp [load_unlink], by simp [lePrev_unlink], ?_⟩
          apply chain.2.2.2.2.congr
          · rw [load_unlink, if_neg (outside successor (by simp)).symm]
          · intro member belongs
            rw [load_unlink, if_neg (outside member (by simp [belongs])).symm]
          · intro member belongs
            rw [lePrev_unlink, if_neg]
            intro same
            exact parts.1 (Option.some.inj same ▸ belongs)
  | cons first rest ih =>
      have parts := List.nodup_cons.mp nodup
      -- The bypassed word belongs to an element of `first :: rest`, hence is not `field`.
      have backElsewhere : field ≠ back := by
        obtain ⟨found, prev', _, place⟩ := chain.back_field
        have same : found = back := Option.some.inj (prev'.symm.trans prev)
        rcases place with ⟨_, empty⟩ | ⟨previous, member, eq⟩
        · simp at empty
        · rw [← same, eq]
          exact outside previous (List.mem_append_left _ member)
      have notSuccessor : after.head? ≠ some first := by
        intro same
        exact parts.1 (by simp [List.mem_of_mem_head? same])
      refine ⟨?_, ?_, ih chain.2.2 parts.2 ?_⟩
      · rw [load_unlink, if_neg backElsewhere]
        exact chain.1
      · rw [lePrev_unlink, if_neg notSuccessor]
        exact chain.2.1
      · intro member belongs same
        exact parts.1 (LinkField.next.inj same ▸ belongs)

theorem WellLinked.remove {list : LinkedList α} {before after : List α} {element : α}
    (linked : WellLinked list (before ++ element :: after)) :
    ∃ removed, list.remove element = some removed ∧ WellLinked removed (before ++ after) := by
  obtain ⟨back, prev, next, _⟩ := linked.chain.back_field
  refine ⟨_, remove_eq_unlink prev linked.leNext_ne_self, ?_, ?_⟩
  · rw [next]
    exact linked.chain.unlink linked.nodup (by simp) prev
  · exact linked.nodup.sublist ((List.sublist_cons_self element after).append_left before)

theorem entry_unlink_of_ne (list : LinkedList α) {field : LinkField α} {successor : Option α}
    {other : α} (notField : field ≠ .next other) (notSuccessor : successor ≠ some other) :
    (list.unlink field successor).entry other = list.entry other := by
  cases successor with
  | none => exact entry_store_of_ne _ _ notField
  | some next =>
      have different : other ≠ next := fun same => notSuccessor (by rw [same])
      exact (entry_store_of_ne _ _ notField).trans (entry_setPrev_of_ne _ _ different)

theorem WellLinked.entry_remove {list removed : LinkedList α} {before after : List α}
    {element other : α} (linked : WellLinked list (before ++ element :: after))
    (result : list.remove element = some removed) (outside : other ∉ before ++ element :: after) :
    removed.entry other = list.entry other := by
  obtain ⟨back, prev, next, place⟩ := linked.chain.back_field
  rw [remove_eq_unlink prev linked.leNext_ne_self] at result
  rw [← Option.some.inj result, next]
  apply entry_unlink_of_ne
  · rintro same
    rcases place with ⟨isHead, _⟩ | ⟨previous, member, isNext⟩
    · simp [isHead] at same
    · have equal : previous = other := LinkField.next.inj (isNext.symm.trans same)
      exact outside (List.mem_append_left _ (equal ▸ member))
  · intro same
    exact outside (by simp [List.mem_of_mem_head? same])

theorem WellLinked.removeFirst {list : LinkedList α} {rest : List α} {element : α}
    (linked : WellLinked list (element :: rest)) :
    ∃ removed, list.remove element = some removed ∧ WellLinked removed rest := by
  have place : WellLinked list ([] ++ element :: rest) := linked
  exact place.remove

end Updates

end LinkedList

end IntrusiveList
