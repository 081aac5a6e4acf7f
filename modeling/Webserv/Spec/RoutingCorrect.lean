import Webserv.ForStd.List
import Webserv.Native.Routing

/-!
# Routing picks the most specific location

`get_location` keeps the last location of a plain iteration whose path is a
prefix of the request's path.  The iteration is in the order of the keys, and
among prefixes of one path that is the order by length.

## Key results

- `findServer_eq_find?`: the server a host name stands for
- `foldl_locationTurn`: the loop keeps the last location that qualifies
- `getLocation_longest`: that is the one with the longest path
-/

namespace Webserv

open Config Http

/-! ## The server -/

/-- `has_name` looks for the name among the names. -/
theorem hasName_iff {hostname : Bytes} {names : List Bytes} :
    hasName hostname names = true ↔ hostname ∈ names := by
  induction names with
  | nil => simp [hasName]
  | cons name names ih =>
    by_cases h : name = hostname
    · simp [hasName, h]
    · simp [hasName, h, Ne.symm h, ih]

/-- The first server that has the name. -/
theorem findServer_eq_find? (hostname : Bytes) (info : List Server) :
    findServer hostname info = info.find? fun server => server.serverName.contains hostname := by
  induction info with
  | nil => rfl
  | cons server info ih =>
    by_cases h : hostname ∈ server.serverName
    · simp [findServer, hasName_iff.mpr h, h]
    · have hname : hasName hostname server.serverName = false :=
        Bool.eq_false_iff.mpr fun hname => h (hasName_iff.mp hname)
      simp [findServer, hname, h, ih]

/-- The server that answers a request: without a `Host` header the first one,
    otherwise the first one that has the name. -/
def serverFor (req : Request) (info : List Server) : Option Server :=
  match req.headers.find? (ascii "Host") with
  | none => info.head?
  | some hostname => info.find? fun server => server.serverName.contains hostname

/-! ## The location -/

/-- The location takes the request. -/
def Qualifies (req : Request) (loc : Bytes × Location) : Prop :=
  loc.1 <+: req.path ∧ req.method ∈ loc.2.acceptedMethods

instance (req : Request) (loc : Bytes × Location) : Decidable (Qualifies req loc) :=
  inferInstanceAs (Decidable (_ ∧ _))

/-- A turn of the loop keeps the location if it qualifies. -/
theorem locationTurn_eq (req : Request) (locPtr : Option (Bytes × Location))
    (loc : Bytes × Location) :
    locationTurn req locPtr loc = if decide (Qualifies req loc) then some loc else locPtr := by
  unfold locationTurn
  by_cases hmethod : req.method ∈ loc.2.acceptedMethods
  · by_cases hpath : loc.1 <+: req.path
    · simp [Qualifies, hmethod, hpath]
    · simp [Qualifies, hmethod, hpath]
  · simp [Qualifies, hmethod]

/-- The loop keeps the last location that qualifies. -/
theorem foldl_locationTurn (req : Request) (locs : List (Bytes × Location)) :
    locs.foldl (locationTurn req) none = (locs.filter fun loc => Qualifies req loc).getLast? := by
  have hturn : locationTurn req = fun locPtr loc =>
      if decide (Qualifies req loc) then some (id loc) else locPtr := by
    funext locPtr loc
    exact locationTurn_eq req locPtr loc
  rw [hturn, List.foldl_keep_last]
  simp

/-- What `get_location` returns when there is a server. -/
theorem getLocation_eq {req : Request} {info : List Server} (h : info ≠ []) :
    getLocation req info = .ok (match serverFor req info with
      -- without a `Host` the first server is taken
      | none => none
      | some server =>
        (server.locations.entries.filter fun loc => Qualifies req loc).getLast?) := by
  unfold getLocation serverFor
  cases req.headers.find? (ascii "Host") with
  | none =>
    obtain ⟨server, rest, rfl⟩ := List.exists_cons_of_ne_nil h
    show Except.ok _ = _
    rw [foldl_locationTurn]
    rfl
  | some hostname =>
    show (match findServer hostname info with
      | none => pure none
      | some server => pure (server.locations.entries.foldl (locationTurn req) none)) = _
    rw [findServer_eq_find?]
    dsimp only
    cases info.find? (fun server => server.serverName.contains hostname) with
    | none => rfl
    | some server =>
      show Except.ok _ = _
      rw [foldl_locationTurn]

/-- Among the locations that qualify the last one has the longest path. -/
theorem length_lt_of_getLast? {req : Request} (locations : OrderedMap Bytes Location)
    {loc other : Bytes × Location}
    (hlast : (locations.entries.filter fun loc => Qualifies req loc).getLast? = some loc)
    (hother : other ∈ locations.entries) (hqualifies : Qualifies req other) (hne : other ≠ loc) :
    other.1.length < loc.1.length := by
  have hmem : loc ∈ locations.entries.filter fun loc => Qualifies req loc :=
    List.mem_of_getLast? hlast
  have hloc : Qualifies req loc := by simpa using (List.mem_filter.mp hmem).2
  -- the entries are in the order of their paths
  have hsorted : (locations.entries.filter fun loc => Qualifies req loc).Pairwise
      fun e e' => e.1 < e'.1 :=
    (List.pairwise_map.mp locations.ordered).filter _
  have hlt : other.1 < loc.1 :=
    (hsorted.le_getLast hlast (List.mem_filter.mpr ⟨hother, by simpa using hqualifies⟩)).resolve_left
      hne
  -- and for two prefixes of one path that is the order of their lengths
  have hle : other.1.length ≤ loc.1.length :=
    (List.IsPrefix.lex_le_iff_length_le hqualifies.1 hloc.1).mp hlt.le
  have hnle : ¬ loc.1.length ≤ other.1.length := fun h =>
    not_le_of_gt hlt ((List.IsPrefix.lex_le_iff_length_le hloc.1 hqualifies.1).mpr h)
  omega

/-- `get_location` picks the location with the longest path that takes the request. -/
theorem getLocation_longest (req : Request) {info : List Server} (h : info ≠ []) :
    ∃ result, getLocation req info = .ok result ∧
      (serverFor req info = none → result = none) ∧
      ∀ server, serverFor req info = some server →
        (result = none ↔ ∀ loc ∈ server.locations.entries, ¬ Qualifies req loc) ∧
        ∀ loc, result = some loc → loc ∈ server.locations.entries ∧ Qualifies req loc ∧
          ∀ other ∈ server.locations.entries, Qualifies req other → other ≠ loc →
            other.1.length < loc.1.length := by
  refine ⟨_, getLocation_eq h, fun hnone => by rw [hnone], fun server hserver => ?_⟩
  rw [hserver]
  -- the last match is `none` only if there is no match
  refine ⟨by simp, fun loc hloc => ?_⟩
  have hmem := List.mem_filter.mp (List.mem_of_getLast? hloc)
  exact ⟨hmem.1, by simpa using hmem.2, fun other hother hqualifies hne =>
    length_lt_of_getLast? server.locations hloc hother hqualifies hne⟩

/-- A server with two locations. -/
def imagesServer : Server where
  listen := ascii "80"
  serverName := [ascii "a"]
  locations := ((∅ : OrderedMap Bytes Location).insert (ascii "/images/")
    { acceptedMethods := {ascii "GET"} }).insert (ascii "/") { acceptedMethods := {ascii "GET"} }

/-- A request both locations take. -/
def imagesRequest : Request where
  method := ascii "GET"
  path := ascii "/images/cat"
  httpVersion := ascii "HTTP/1.1"
  headers := (∅ : Headers).insert (ascii "Host") (ascii "a")
  body := []

/-- The request goes to the more specific location. -/
theorem getLocation_longest_images : ∃ loc,
    getLocation imagesRequest [imagesServer] = .ok (some loc) ∧
      ∀ other ∈ imagesServer.locations.entries, Qualifies imagesRequest other → other ≠ loc →
        other.1.length < loc.1.length := by
  obtain ⟨result, hresult, -, hbest⟩ :=
    getLocation_longest imagesRequest (List.cons_ne_nil imagesServer [])
  obtain ⟨hnone, hsome⟩ := hbest imagesServer (by decide +kernel)
  -- the location `/` qualifies, so something is found
  cases result with
  | none =>
    have hnot : ¬ ∀ loc ∈ imagesServer.locations.entries, ¬ Qualifies imagesRequest loc := by
      decide +kernel
    exact absurd (hnone.mp rfl) hnot
  | some loc => exact ⟨loc, hresult, (hsome loc rfl).2.2⟩

end Webserv
