import Webserv.Spec.ConfigCorrect
import Webserv.Spec.RoutingCorrect

/-!
# Location blocks with the same path

The locations of a server block go into a map under their paths.  A second
block with a path writes over the first one.

## Key results

- `LocationsKept.routed`: a location block with an entry takes part in routing
- `locationsKept_iff`: a server block keeps its locations
- `locations_kept_iff`: no location block of a configuration is lost
-/

namespace Webserv.Config

open ServConf Http

/-- Every location block of the server block has an entry of its own. -/
structure LocationsKept (node : Node) (server : Server) : Prop where
  mem : ∀ location ∈ under (ascii "location") node,
    (pathOf location, locationOf location) ∈ server.locations.entries
  length_eq : server.locations.entries.length = (under (ascii "location") node).length

/-- A request that a location block takes is not left without a location. -/
theorem LocationsKept.routed {node : Node} {server : Server} (h : LocationsKept node server)
    {location : Node} (hlocation : location ∈ under (ascii "location") node) {req : Request}
    {info : List Server} (hne : info ≠ []) (hserver : serverFor req info = some server)
    (hqualifies : Qualifies req (pathOf location, locationOf location)) :
    ∃ loc, Webserv.getLocation req info = .ok (some loc) := by
  rw [getLocation_eq hne, hserver]
  -- routing takes the last entry that qualifies, and this is one
  have hmem : (pathOf location, locationOf location) ∈
      server.locations.entries.filter fun loc => Qualifies req loc :=
    List.mem_filter.mpr ⟨h.mem location hlocation, by simpa using hqualifies⟩
  exact ⟨_, congrArg Except.ok (List.getLast?_eq_some_getLast (List.ne_nil_of_mem hmem))⟩

/-- A server block keeps its locations exactly when their paths are distinct. -/
theorem locationsKept_iff (node : Node) :
    LocationsKept node (serverOf node) ↔
      ((under (ascii "location") node).map pathOf).Nodup := by
  have hlength := OrderedMap.length_foldl_insert_eq_iff pathOf locationOf
    (under (ascii "location") node)
  constructor
  · -- two blocks with one path share an entry, so there are too few
    intro hkept
    exact hlength.mp hkept.length_eq
  · intro hnodup
    -- distinct paths do not overwrite one another
    refine ⟨fun location hlocation => ?_, hlength.mpr hnodup⟩
    exact OrderedMap.find?_eq_some_iff.mp
      (OrderedMap.find?_foldl_insert_of_nodup pathOf locationOf hnodup hlocation)

/-- The servers are those of the blocks, one by one. -/
theorem forall₂_locationsKept_iff (c : ServConf) (listen : Bytes) :
    List.Forall₂ LocationsKept ((serverNodes c).filter fun s => listenOf s = listen)
        (((serversOf c).find? listen).getD []) ↔
      ∀ server ∈ serverNodes c, listenOf server = listen →
        ((under (ascii "location") server).map pathOf).Nodup := by
  rw [find?_serversOf, List.forall₂_map_right_iff, List.forall₂_same]
  simp only [List.mem_filter, decide_eq_true_eq, and_imp, locationsKept_iff]

/-- An accepted configuration keeps all its location blocks exactly when in no server
    block two of them have the same path. -/
theorem locations_kept_iff {c : ServConf} (h : c.Full) {conf : Conf}
    (hconf : Config.from c = .ok conf) :
    (∀ listen, List.Forall₂ LocationsKept
        ((serverNodes c).filter fun s => listenOf s = listen)
        ((conf.servers.find? listen).getD [])) ↔
      ∀ server ∈ serverNodes c, ((under (ascii "location") server).map pathOf).Nodup := by
  -- the map is the one the blocks are grouped into
  obtain ⟨-, rfl⟩ := (okWhen_from h conf).mp hconf
  constructor
  · intro hkept server hserver
    exact (forall₂_locationsKept_iff c _).mp (hkept (listenOf server)) server hserver rfl
  · intro hnodup listen
    exact (forall₂_locationsKept_iff c listen).mpr fun server hserver _ => hnodup server hserver

/-- The locations of two server blocks. -/
theorem locations_kept_twoServers :
    ∃ c conf, ServConf.from twoServers = .ok c ∧ Config.from c = .ok conf ∧
      ∀ listen, List.Forall₂ LocationsKept
        ((serverNodes c).filter fun s => listenOf s = listen)
        ((conf.servers.find? listen).getD []) := by
  -- all of it is computed
  have hok : ((ServConf.from twoServers).toOption.any fun c => (Config.from c).isOk &&
      (serverNodes c).all fun s => ((under (ascii "location") s).map pathOf).Nodup) = true := by
    decide +kernel
  cases hc : ServConf.from twoServers with
  | error e =>
    rw [hc] at hok
    cases hok
  | ok c =>
    rw [hc] at hok
    obtain ⟨hisOk, hnodup⟩ := Bool.and_eq_true_iff.mp hok
    obtain ⟨conf, hconf⟩ := Except.exists_ok_of_isOk hisOk
    have hnodup : ∀ s ∈ serverNodes c, ((under (ascii "location") s).map pathOf).Nodup := by
      simpa using hnodup
    exact ⟨c, conf, rfl, hconf, (locations_kept_iff (Conf.full_of_from hc) hconf).mpr hnodup⟩

/-- One path in two blocks, one for each method. -/
def sharedPath : Bytes :=
  ascii ("http \x7b server \x7b location / \x7b accepted_method GET; root /a; \x7d" ++
    " location / \x7b accepted_method POST; root /b; \x7d \x7d \x7d")

/-- A request the first of the two blocks takes. -/
def sharedRequest : Request where
  method := ascii "GET"
  path := ascii "/"
  httpVersion := ascii "HTTP/1.1"
  headers := ∅
  body := []

/-- The first of the two blocks is lost, and what it takes is not routed. -/
theorem locations_lost :
    (¬ ∀ (c : ServConf) (conf : Conf), c.Full → Config.from c = .ok conf →
      ∀ listen, List.Forall₂ LocationsKept
        ((serverNodes c).filter fun s => listenOf s = listen)
        ((conf.servers.find? listen).getD [])) ∧
      ∃ c conf, ServConf.from sharedPath = .ok c ∧ Config.from c = .ok conf ∧
        (∃ server ∈ serverNodes c, listenOf server = ascii "80" ∧
          ∃ location ∈ under (ascii "location") server,
            Qualifies sharedRequest (pathOf location, locationOf location)) ∧
        Webserv.getLocation sharedRequest ((conf.servers.find? (ascii "80")).getD []) =
          .ok none := by
  -- all of it is computed
  have hok : ((ServConf.from sharedPath).toOption.any fun c =>
      (Config.from c).toOption.any fun conf =>
        ((serverNodes c).any fun s => listenOf s = ascii "80" &&
          ¬ ((under (ascii "location") s).map pathOf).Nodup) &&
        ((serverNodes c).any fun s => listenOf s = ascii "80" &&
          (under (ascii "location") s).any fun l =>
            Qualifies sharedRequest (pathOf l, locationOf l)) &&
        (Webserv.getLocation sharedRequest ((conf.servers.find? (ascii "80")).getD []) =
          .ok none : Bool)) = true := by
    decide +kernel
  cases hc : ServConf.from sharedPath with
  | error e =>
    rw [hc] at hok
    cases hok
  | ok c =>
    cases hconf : Config.from c with
    | error e =>
      rw [hc] at hok
      simp [Except.toOption, hconf] at hok
    | ok conf =>
      rw [hc] at hok
      simp only [Except.toOption, Option.any_some, hconf, Bool.and_eq_true, List.any_eq_true,
        decide_eq_true_eq] at hok
      obtain ⟨⟨⟨s, hs, hlisten, hnodup⟩, hqualifies⟩, hnone⟩ := hok
      refine ⟨fun hkept => hnodup ?_, c, conf, rfl, hconf, hqualifies, hnone⟩
      -- the blocks of this server do not have distinct paths
      have hfull := Conf.full_of_from hc
      have hlost := hkept c conf hfull hconf (ascii "80")
      obtain ⟨-, rfl⟩ := (okWhen_from hfull conf).mp hconf
      exact (forall₂_locationsKept_iff c _).mp hlost s hs hlisten

end Webserv.Config
