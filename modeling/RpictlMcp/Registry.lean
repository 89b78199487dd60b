import RpictlMcp.BoardLease
import RpictlMcp.Config
import RpictlMcp.SerialRing
import Mathlib.Data.String.Basic

/-!
# rpictl-mcp: the registry as a map

`BoardRegistry::new` validates a configuration and collects its boards into a map
under their ids, which would drop all but the last of several boards with one id.
`BoardRegistry::list` sorts the values of the map by id, and the map gives them in
no particular order.  This module shows that an accepted configuration is kept as
it is, and that the registry that the rest of the development works with, the
list of the accepted profiles, is the same one.
-/

namespace RpictlMcp

/-- A board of the registry.  The serial writer and the subscribers, both of which
start out empty, are not part of it. -/
structure Board where
  profile : BoardProfile
  lease : Option LeaseOwner
  serial : SerialRing
  consoleActive : Bool

/-- The registry: its boards by their ids. -/
structure BoardMap where
  boards : Std.HashMap String Board

/-- The entry that `BoardRegistry::new` makes for a profile. -/
def registered (capacity : Nat) (profile : BoardProfile) :
    Except Panic (String × Board) := do
  let serial ← SerialRing.new capacity
  return (profile.boardId,
    { profile, lease := none, serial, consoleActive := false })

/-- The order of `BoardRegistry::list`. -/
def sortBoards (boards : List Board) : List Board :=
  boards.mergeSort fun left right =>
    decide (left.profile.boardId ≤ right.profile.boardId)

namespace BoardMap

/-- `BoardRegistry::new`. -/
def new (config : Config) : Except Panic (Result BoardMap) :=
  match config.validate with
  | .error error => return .error error
  | .ok () => do
      let boards ← config.boards.mapM (registered config.serialRingBytes)
      return .ok ⟨Std.HashMap.ofList boards⟩

/-- `BoardRegistry::board`. -/
def board (registry : BoardMap) (boardId : String) : Result Board :=
  match registry.boards[boardId]? with
  | some board => .ok board
  | none => .error (boardNotFound boardId)

/-- `BoardRegistry::list`, for some order in which the map gives its values. -/
def Lists (registry : BoardMap) (boards : List Board) : Prop :=
  ∃ values, values.Perm (registry.boards.toList.map Prod.snd) ∧
    boards = sortBoards values

end BoardMap

/-- The registry keeps the boards of a configuration. -/
structure Registers (registry : BoardMap) (config : Config) : Prop where
  listed : ∃ boards, registry.Lists boards
  perm : ∀ boards, registry.Lists boards →
    (boards.map (·.profile)).Perm config.boards
  sorted : ∀ boards, registry.Lists boards → boards.Pairwise fun left right =>
    left.profile.boardId < right.profile.boardId
  found : ∀ profile ∈ config.boards, ∃ board,
    registry.board profile.boardId = .ok board ∧ board.profile = profile
  missing : ∀ boardId, (∀ profile ∈ config.boards, profile.boardId ≠ boardId) →
    registry.board boardId = .error (boardNotFound boardId)

section Registry

variable {config : Config} {registry : BoardMap} {boards : List Board}

/-- A board as it is registered. -/
def freshBoard (capacity : Nat) (profile : BoardProfile) : Board where
  profile := profile
  lease := none
  serial :=
    { capacity, bytes := 0, nextCursor := 0, generation := 0, chunks := [] }
  consoleActive := false

/-- With room for some byte, every board gets its ring. -/
theorem mapM_registered {capacity : Nat} (hcapacity : capacity ≠ 0)
    (profiles : List BoardProfile) :
    profiles.mapM (registered capacity) = .ok (profiles.map fun profile =>
      (profile.boardId, freshBoard capacity profile)) := by
  have hregistered : registered capacity = fun profile =>
      pure (profile.boardId, freshBoard capacity profile) := by
    funext profile
    rw [registered, SerialRing.new, if_pos (Nat.pos_of_ne_zero hcapacity)]
    rfl
  rw [hregistered, List.mapM_pure]
  rfl

/-- The registry of a well-formed configuration. -/
theorem new_of_wellFormed (h : config.WellFormed) :
    BoardMap.new config = .ok (.ok ⟨keyedMap (·.profile.boardId)
      (config.boards.map (freshBoard config.serialRingBytes))⟩) := by
  rw [BoardMap.new, Config.validate_eq_ok_iff.mpr h]
  simp only [mapM_registered h.ring, keyedMap, List.map_map]
  rfl

/-- A configuration that is not well-formed is rejected. -/
theorem new_of_not_wellFormed (h : ¬config.WellFormed) :
    ∃ error, BoardMap.new config = .ok (.error error) := by
  rw [← Config.validate_eq_ok_iff] at h
  cases hvalidate : config.validate with
  | error error => exact ⟨error, by rw [BoardMap.new, hvalidate]; rfl⟩
  | ok => exact absurd hvalidate h

/-- The boards as they are registered have the profiles of the configuration. -/
theorem map_profile_freshBoard (capacity : Nat) (profiles : List BoardProfile) :
    (profiles.map (freshBoard capacity)).map (·.profile) = profiles := by
  rw [List.map_map]
  exact List.map_id profiles

theorem nodup_freshBoards (h : config.WellFormed) (capacity : Nat) :
    ((config.boards.map (freshBoard capacity)).map
      (·.profile.boardId)).Nodup := by
  rw [List.map_map]
  exact h.ids

/-- What the registry of a well-formed configuration lists. -/
theorem lists_iff (h : config.WellFormed) (capacity : Nat) :
    BoardMap.Lists ⟨keyedMap (·.profile.boardId)
        (config.boards.map (freshBoard capacity))⟩ boards ↔
      boards = sortBoards (config.boards.map (freshBoard capacity)) := by
  have hids := nodup_freshBoards h capacity
  constructor
  · rintro ⟨values, hvalues, rfl⟩
    exact sortByKey_eq_of_perm hids (hvalues.trans (keyedMap_perm hids))
  · rintro rfl
    exact ⟨_, (keyedMap_perm hids).symm, rfl⟩

/-- The registry of a well-formed configuration keeps its boards. -/
theorem registers_of_wellFormed (h : config.WellFormed) (capacity : Nat) :
    Registers ⟨keyedMap (·.profile.boardId)
      (config.boards.map (freshBoard capacity))⟩ config := by
  have hids := nodup_freshBoards h capacity
  constructor
  · exact ⟨_, (lists_iff h capacity).mpr rfl⟩
  · intro boards hlists
    rw [(lists_iff h capacity).mp hlists]
    have hperm : (sortBoards (config.boards.map (freshBoard capacity))).Perm
        (config.boards.map (freshBoard capacity)) :=
      sortByKey_perm
    have hprofiles := hperm.map (·.profile)
    rwa [map_profile_freshBoard] at hprofiles
  · intro boards hlists
    rw [(lists_iff h capacity).mp hlists]
    exact sortByKey_strict hids
  · intro profile hprofile
    refine ⟨freshBoard capacity profile, ?_, rfl⟩
    have hfound : (keyedMap (fun board : Board => board.profile.boardId)
        (config.boards.map (freshBoard capacity)))[profile.boardId]? =
          some (freshBoard capacity profile) :=
      getElem?_keyedMap_of_mem hids (List.mem_map_of_mem hprofile)
    simp only [BoardMap.board, hfound]
  · intro boardId hmissing
    have hnone : (keyedMap (fun board : Board => board.profile.boardId)
        (config.boards.map (freshBoard capacity)))[boardId]? = none := by
      refine getElem?_keyedMap_eq_none ?_
      simpa [freshBoard] using hmissing
    simp only [BoardMap.board, hnone]

/-- The map and the list of the accepted profiles are one registry. -/
structure SameRegistry (map : BoardMap) (registry : BoardRegistry) : Prop where
  board : ∀ boardId,
    (map.board boardId).map (·.profile) = registry.board boardId
  list : ∀ boards, map.Lists boards →
    boards.map (·.profile) = registry.list

theorem list_eq_sortByKey (registry : BoardRegistry) :
    registry.list = sortByKey (·.boardId) registry.config.boards := rfl

/-- A map that keeps the boards of a configuration is the registry that the
configuration stands for. -/
theorem Registers.sameRegistry {map : BoardMap} {registry : BoardRegistry}
    (hkeeps : Registers map registry.config) : SameRegistry map registry := by
  have h := registry.wellFormed
  refine ⟨?_, ?_⟩
  · intro boardId
    unfold BoardRegistry.board
    cases hfind : registry.config.boards.find? (·.boardId = boardId) with
    | some profile =>
        obtain ⟨board, hboard, rfl⟩ :=
          hkeeps.found profile (List.mem_of_find?_eq_some hfind)
        have hid : board.profile.boardId = boardId := by
          simpa using List.find?_some hfind
        rw [← hid, hboard]
        rfl
    | none =>
        rw [hkeeps.missing boardId (by simpa using hfind)]
        rfl
  · intro boards hlists
    rw [list_eq_sortByKey]
    have hsorted : (boards.map (·.profile)).Pairwise fun left right =>
        left.boardId ≤ right.boardId := by
      rw [List.pairwise_map]
      exact (hkeeps.sorted boards hlists).imp le_of_lt
    have hperm : (boards.map (·.profile)).Perm
        (sortByKey (·.boardId) registry.config.boards) :=
      (hkeeps.perm boards hlists).trans sortByKey_perm.symm
    refine hperm.eq_of_pairwise ?_ hsorted sortByKey_sorted
    intro left right hleft hright hle hge
    exact eq_of_key_eq h.ids ((hkeeps.perm boards hlists).mem_iff.mp hleft)
      (sortByKey_perm.mem_iff.mp hright) (le_antisymm hle hge)

/--
`BoardRegistry::new` never panics.  It accepts a configuration exactly if there
is a board, the rings have room, every profile is accepted and no two boards share
an id, a device or a relay; and then its lists are the profiles in the strict
order of their ids, and its lookups find these profiles and no others, as those
of the registry that the configuration stands for.
-/
theorem newRegistry_iff (config : Config) :
    ∃ result, BoardMap.new config = .ok result ∧
      ((∃ registry, result = .ok registry) ↔ config.WellFormed) ∧
      ∀ map, result = .ok map → Registers map config ∧
        ∀ registry : BoardRegistry, registry.config = config →
          SameRegistry map registry := by
  by_cases h : config.WellFormed
  · refine ⟨_, new_of_wellFormed h, ?_, ?_⟩
    · exact ⟨fun _ => h, fun _ => ⟨_, rfl⟩⟩
    · rintro map ⟨⟩
      have hkeeps := registers_of_wellFormed h config.serialRingBytes
      refine ⟨hkeeps, ?_⟩
      rintro registry rfl
      exact hkeeps.sameRegistry
  · obtain ⟨error, hnew⟩ := new_of_not_wellFormed h
    refine ⟨_, hnew, ?_, nofun⟩
    constructor
    · rintro ⟨registry, hregistry⟩
      cases hregistry
    · exact fun hwell => absurd hwell h

end Registry

end RpictlMcp
