import Webserv.Native.Config
import Webserv.Spec.ConfWords

/-!
# What `Config::from` accepts and builds

The checks of the directives, one by one, and of the location and server
blocks made of them.  The map of servers groups the server blocks by their
listen value.

## Key results

- `full_of_from`: in a parsed configuration every key has a node
- `okWhen_getLocation`, `okWhen_addServer`: the checks of the blocks
- `okWhen_from`: the checks of a configuration and the map of its servers
- `from_groups`: which configurations are accepted, and what `servers` holds then
-/

namespace Webserv

open ServConf

/-! ## Parsed configurations -/

/-- A key of a block has nodes, here and in all blocks below. -/
inductive ServConf.Node.Full : Node → Prop where
  | operator (args : List Bytes) : Full (.mk args none)
  | block {args : List Bytes} {nodes : NodeMap} (hne : ∀ e ∈ nodes, e.2 ≠ [])
      (hnodes : ∀ e ∈ nodes, ∀ node ∈ e.2, Full node) : Full (.mk args (some nodes))

/-- A key of the configuration has nodes, and so on in all its blocks.  Every `ServConf`
    there is comes from `ServConf::from`, which ensures this (`full_of_from`). -/
structure ServConf.Full (c : ServConf) : Prop where
  ne_nil : ∀ e ∈ c.nodes, e.2 ≠ []
  full : ∀ e ∈ c.nodes, ∀ node ∈ e.2, node.Full

namespace Conf

/-- A configuration without nodes. -/
theorem full_empty : ServConf.Full ⟨[]⟩ :=
  ⟨fun _ he => absurd he List.not_mem_nil, fun _ he => absurd he List.not_mem_nil⟩

/-- A pushed node leaves no key without nodes. -/
theorem full_push {nodes : NodeMap} {key : Bytes} {node : Node} (h : ServConf.Full ⟨nodes⟩)
    (hnode : node.Full) : ServConf.Full ⟨SortedEntries.push nodes key node⟩ := by
  refine ⟨fun e he => ?_, fun e he node' hnode' => ?_⟩
  · rcases SortedEntries.mem_push he with he | ⟨vs, rfl, -⟩
    · exact h.ne_nil e he
    · simp
  · rcases SortedEntries.mem_push he with he | ⟨vs, rfl, hvs⟩
    · exact h.full e he node' hnode'
    · rcases List.mem_append.mp hnode' with hold | hnew
      · -- one of the nodes that had the key before
        obtain ⟨e', he', hmem⟩ := hvs node' hold
        exact h.full e' he' node' hmem
      · rw [List.mem_singleton.mp hnew]
        exact hnode

/-- What is read is full. -/
theorem Reads.full {tokens left currTokens : List Bytes} {depth : ℕ} {nodes res : NodeMap}
    (h : Reads tokens depth currTokens nodes res left) (hnodes : ServConf.Full ⟨nodes⟩) :
    ServConf.Full ⟨res⟩ := by
  -- nodes are only ever added by a push
  induction h with
  | done => exact hnodes
  | comment _ _ ih => exact ih hnodes
  | block _ _ _ _ ihblock ihrest =>
    have hinner := ihblock full_empty
    exact ihrest (full_push hnodes (.block hinner.ne_nil hinner.full))
  | close _ _ => exact hnodes
  | operator _ _ ih => exact ih (full_push hnodes (.operator _))
  | word _ _ ih => exact ih hnodes

/-- In a parsed configuration every key has a node. -/
theorem full_of_from {s : Bytes} {c : ServConf} (h : ServConf.from s = .ok c) : c.Full :=
  (reads_of_from h).full full_empty

end Conf

namespace Config

/-! ## Nodes under a key -/

/-- The nodes under a key of a block. -/
def under (key : Bytes) (node : Node) : List Node := (node.getByKey key).getD []

/-- A key is there if and only if it has nodes. -/
theorem getByKey_of_full {node : Node} (h : node.Full) (key : Bytes) :
    node.getByKey key = if under key node = [] then none else some (under key node) := by
  cases hget : node.getByKey key with
  | none => simp [under, hget]
  | some nodes =>
    -- what is found under a key is not empty
    have hne : nodes ≠ [] := by
      cases h with
      | operator args => cases hget
      | block hne _ => exact hne _ (SortedEntries.mem_of_find?_eq_some hget)
    simp [under, hget, hne]

/-- So is a node of a block. -/
theorem full_of_mem_under {node n : Node} {key : Bytes} (h : node.Full)
    (hn : n ∈ under key node) : n.Full := by
  cases h with
  -- an operator has no nodes
  | operator args => simp [under, Node.getByKey] at hn
  | @block args nodes _ hnodes =>
    cases hget : SortedEntries.find? key nodes with
    | none => simp [under, Node.getByKey, hget] at hn
    | some ns =>
      rw [under, Node.getByKey, hget] at hn
      exact hnodes _ (SortedEntries.mem_of_find?_eq_some hget) n hn

/-! ## Directives -/

/-- At most one such directive is in the block, and it is an operator. -/
structure AtMostOne (key : Bytes) (node : Node) : Prop where
  atMostOne : (under key node).length ≤ 1
  isOperator : ∀ n ∈ under key node, n.isOperator = true

/-- At most one such directive is in the block, and it is an operator with one arg. -/
structure AtMostOneVal (key : Bytes) (node : Node) : Prop extends AtMostOne key node where
  oneArg : ∀ n ∈ under key node, n.getArgs.length = 1

/-- The args of a directive, none if it is absent. -/
def argsOf (key : Bytes) (node : Node) : List Bytes :=
  ((under key node).head?.map Node.getArgs).getD []

/-- The first arg of a directive, `defaultVal` if there is none. -/
def valOf (key : Bytes) (node : Node) (defaultVal : Bytes) : Bytes :=
  (argsOf key node).headD defaultVal

/-- `get_operator_args` returns if there is at most one such node and it is an operator. -/
theorem okWhen_getOperatorArgs {node : Node} (h : node.Full) (key : Bytes) :
    (node.getOperatorArgs key).OkWhen (AtMostOne key node) (argsOf key node) := by
  unfold Node.getOperatorArgs argsOf
  rw [getByKey_of_full h]
  -- by the number of nodes: none, one, several
  match hunder : under key node with
  | [] =>
    refine (Except.okWhen_ok _).congr (iff_of_true trivial ⟨?_, ?_⟩)
    · simp [hunder]
    · simp [hunder]
  | [val] =>
    by_cases hop : val.isOperator = true
    · simp only [hop, not_true_eq_false, ↓reduceIte, List.cons_ne_nil]
      refine (Except.okWhen_ok _).congr (iff_of_true trivial ⟨?_, ?_⟩)
      · simp [hunder]
      · simp [hunder, hop]
    · simp only [hop, ↓reduceIte, List.cons_ne_nil]
      refine Except.okWhen_error _ _ fun hone => hop (hone.isOperator val ?_)
      simp [hunder]
  | val :: val' :: rest =>
    refine Except.okWhen_error _ _ fun hone => ?_
    have hle := hone.atMostOne
    simp [hunder] at hle

/-- `get_operator_single_val` asks for one argument, too. -/
theorem okWhen_getOperatorSingleVal {node : Node} (h : node.Full) (key defaultVal : Bytes) :
    (node.getOperatorSingleVal key defaultVal).OkWhen (AtMostOneVal key node)
      (valOf key node defaultVal) := by
  unfold Node.getOperatorSingleVal valOf argsOf
  rw [getByKey_of_full h]
  -- the same cases as in `getOperatorArgs`, and in the middle one the number of args
  match hunder : under key node with
  | [] =>
    refine (Except.okWhen_ok _).congr (iff_of_true trivial ⟨⟨?_, ?_⟩, ?_⟩)
    · simp [hunder]
    · simp [hunder]
    · simp [hunder]
  | [val] =>
    -- an operator, or a block under the name of one
    by_cases hop : val.isOperator = true
    · simp only [hop, not_true_eq_false, ↓reduceIte, List.cons_ne_nil]
      match hargs : val.getArgs with
      | [arg] =>
        simp only [List.head?_cons, Option.map_some, Option.getD_some, hargs, List.headD_cons]
        refine (Except.okWhen_ok _).congr (iff_of_true trivial ⟨⟨?_, ?_⟩, ?_⟩)
        · simp [hunder]
        · simp [hunder, hop]
        · simp [hunder, hargs]
      | [] =>
        refine Except.okWhen_error _ _ fun hone => ?_
        simpa [hargs] using hone.oneArg val (by simp [hunder])
      | arg :: arg' :: args =>
        refine Except.okWhen_error _ _ fun hone => ?_
        simpa [hargs] using hone.oneArg val (by simp [hunder])
    · simp only [hop, ↓reduceIte, List.cons_ne_nil]
      refine Except.okWhen_error _ _ fun hone => hop (hone.isOperator val ?_)
      simp [hunder]
  -- several nodes under the key
  | val :: val' :: rest =>
    refine Except.okWhen_error _ _ fun hone => ?_
    have hle := hone.atMostOne
    simp [hunder] at hle

/-! ## Locations -/

/-- What is asked of a location block. -/
structure ValidLocation (location : Node) : Prop where
  isBlock : location.isOperator = false
  oneArg : location.getArgs.length = 1
  root : AtMostOneVal (ascii "root") location
  proxyPass : AtMostOneVal (ascii "proxy_pass") location
  cgi : AtMostOneVal (ascii "cgi") location
  acceptedMethod : AtMostOne (ascii "accepted_method") location

def pathOf (location : Node) : Bytes := location.getArgs.headD []

def locationOf (location : Node) : Location where
  acceptedMethods := (argsOf (ascii "accepted_method") location).toFinset
  root := valOf (ascii "root") location []
  proxyPass := valOf (ascii "proxy_pass") location []
  cgiPath := valOf (ascii "cgi") location []

/-- The locations of a server block by their paths. -/
def locationsOf (server : Node) : OrderedMap Bytes Location :=
  (under (ascii "location") server).foldl
    (fun locs location => locs.insert (pathOf location) (locationOf location)) ∅

/-- A location is added if it is valid. -/
theorem okWhen_addLocation {location : Node} (h : location.Full)
    (locs : OrderedMap Bytes Location) :
    (Node.addLocation locs location).OkWhen (ValidLocation location)
      (locs.insert (pathOf location) (locationOf location)) := by
  unfold Node.addLocation
  -- a location that is no block, then one without exactly one arg
  by_cases hop : location.isOperator = true
  · rw [if_pos hop]
    refine Except.okWhen_error _ _ fun hvalid => ?_
    rw [hvalid.isBlock] at hop
    cases hop
  rw [if_neg hop]
  match hargs : location.getArgs with
  | [path] =>
    have hpath : pathOf location = path := by simp [pathOf, hargs]
    rw [hpath]
    -- the four directives in the order of the source
    refine Except.OkWhen.congr ((okWhen_getOperatorSingleVal h _ _).bind
      ((okWhen_getOperatorSingleVal h _ _).bind ((okWhen_getOperatorSingleVal h _ _).bind
        ((okWhen_getOperatorArgs h _).bind (Except.okWhen_ok _))))) ?_
    constructor
    · rintro ⟨hroot, hproxy, hcgi, hmethods, -⟩
      exact ⟨by simpa using hop, by simp [hargs], hroot, hproxy, hcgi, hmethods⟩
    · intro hvalid
      exact ⟨hvalid.root, hvalid.proxyPass, hvalid.cgi, hvalid.acceptedMethod, trivial⟩
  | [] =>
    refine Except.okWhen_error _ _ fun hvalid => ?_
    simpa [hargs] using hvalid.oneArg
  | path :: arg :: args =>
    refine Except.okWhen_error _ _ fun hvalid => ?_
    simpa [hargs] using hvalid.oneArg

/-- What is asked of the locations of a server block. -/
structure ValidLocations (server : Node) : Prop where
  ne_nil : under (ascii "location") server ≠ []
  valid : ∀ location ∈ under (ascii "location") server, ValidLocation location

/-- `get_location` returns if all locations are valid. -/
theorem okWhen_getLocation {server : Node} (h : server.Full) :
    server.getLocation.OkWhen (ValidLocations server) (locationsOf server) := by
  unfold Node.getLocation
  rw [getByKey_of_full h]
  by_cases hnil : under (ascii "location") server = []
  · rw [if_pos hnil]
    exact Except.okWhen_error _ _ fun hvalid => hvalid.ne_nil hnil
  · -- what a location block is asked does not depend on the locations before it
    rw [if_neg hnil]
    have hloop := Except.OkWhen.foldlM (l := under (ascii "location") server)
      (fun locs location hmem => okWhen_addLocation (full_of_mem_under h hmem) locs) ∅
    exact hloop.congr ⟨fun hvalid => ⟨hnil, hvalid⟩, fun hvalid => hvalid.valid⟩

/-! ## Servers -/

/-- What is asked of a server block. -/
structure ValidServer (server : Node) : Prop where
  listen : AtMostOneVal (ascii "listen") server
  serverName : AtMostOne (ascii "server_name") server
  locations : ValidLocations server

def listenOf (server : Node) : Bytes := valOf (ascii "listen") server (ascii "80")

def serverOf (server : Node) : Server where
  listen := listenOf server
  serverName := argsOf (ascii "server_name") server
  locations := locationsOf server

/-- A server is added if it is valid. -/
theorem okWhen_addServer {server : Node} (h : server.Full) (servers : Servers) :
    (addServer servers server).OkWhen (ValidServer server)
      (servers.push (listenOf server) (serverOf server)) := by
  unfold addServer
  -- the checks in the order of the source
  refine Except.OkWhen.congr ((okWhen_getOperatorSingleVal h _ _).bind
    ((okWhen_getOperatorArgs h _).bind ((okWhen_getLocation h).bind (Except.okWhen_ok _)))) ?_
  constructor
  · -- the conditions are the fields of `ValidServer`
    rintro ⟨hlisten, hname, hlocations, -⟩
    exact ⟨hlisten, hname, hlocations⟩
  · intro hvalid
    exact ⟨hvalid.listen, hvalid.serverName, hvalid.locations, trivial⟩

/-- An http block without server blocks is passed over. -/
theorem okWhen_addServers {http : Node} (h : http.Full) (servers : Servers) :
    (addServers servers http).OkWhen (∀ server ∈ under (ascii "server") http, ValidServer server)
      ((under (ascii "server") http).foldl
        (fun servers server => servers.push (listenOf server) (serverOf server)) servers) := by
  unfold addServers
  rw [getByKey_of_full h]
  -- a block without servers adds none
  by_cases hnil : under (ascii "server") http = []
  · rw [if_pos hnil, hnil]
    exact (Except.okWhen_ok _).congr (by simp)
  · rw [if_neg hnil]
    exact Except.OkWhen.foldlM
      (fun servers server hmem => okWhen_addServer (full_of_mem_under h hmem) servers) servers

/-! ## Configurations -/

/-- The nodes under `http`. -/
def httpNodes (c : ServConf) : List Node := (c.getByKey (ascii "http")).getD []

/-- The server blocks of all http blocks, in the order of the document. -/
def serverNodes (c : ServConf) : List Node := (httpNodes c).flatMap (under (ascii "server"))

/-- The server blocks grouped by what they listen on. -/
def serversOf (c : ServConf) : Servers :=
  (serverNodes c).foldl
    (fun servers server => servers.push (listenOf server) (serverOf server)) ∅

/-- What is asked of a configuration. -/
structure ValidConf (c : ServConf) : Prop where
  http : (c.getByKey (ascii "http")).isSome = true
  server : serverNodes c ≠ []
  valid : ∀ server ∈ serverNodes c, ValidServer server

/-- The servers are grouped by what they listen on. -/
theorem entries_serversOf (c : ServConf) :
    (serversOf c).entries =
      SortedEntries.groupByKey ((serverNodes c).map fun s => (listenOf s, serverOf s)) :=
  OrderedMap.entries_foldl_push listenOf serverOf (serverNodes c)

/-- `Config::from` returns if the configuration is valid. -/
theorem okWhen_from {c : ServConf} (h : c.Full) :
    (Config.from c).OkWhen (ValidConf c) ⟨serversOf c⟩ := by
  unfold Config.from
  cases hget : c.getByKey (ascii "http") with
  | none =>
    refine Except.okWhen_error _ _ fun hvalid => ?_
    have hhttp := hvalid.http
    rw [hget] at hhttp
    cases hhttp
  | some httpBlocks =>
    have hnodes : httpNodes c = httpBlocks := by simp [httpNodes, hget]
    have hfull : ∀ http ∈ httpBlocks, http.Full :=
      h.full _ (SortedEntries.mem_of_find?_eq_some hget)
    -- each http block adds its servers to those of the blocks before it
    have hloop : (httpBlocks.foldlM addServers ∅).OkWhen
        (∀ http ∈ httpBlocks, ∀ server ∈ under (ascii "server") http, ValidServer server)
        (serversOf c) := by
      rw [serversOf, serverNodes, hnodes, List.foldl_flatMap]
      exact Except.OkWhen.foldlM
        (fun servers http hmem => okWhen_addServers (hfull http hmem) servers) ∅
    -- the map is empty if and only if there are no server blocks
    have hempty : (serversOf c).entries = [] ↔ serverNodes c = [] := by
      rw [entries_serversOf, SortedEntries.groupByKey_eq_nil_iff, List.map_eq_nil_iff]
    -- the test behind the loop
    have hcheck : (if (serversOf c).entries = [] then
          .error ⟨ascii "no server block in http block"⟩
        else .ok ⟨serversOf c⟩ : Except Error Conf).OkWhen (serverNodes c ≠ []) ⟨serversOf c⟩ := by
      by_cases hnil : serverNodes c = []
      · rw [if_pos (hempty.mpr hnil)]
        exact Except.okWhen_error _ _ (not_not_intro hnil)
      · rw [if_neg (mt hempty.mp hnil)]
        exact (Except.okWhen_ok _).congr (iff_of_true trivial hnil)
    refine (hloop.bind hcheck).congr ⟨?_, ?_⟩
    · rintro ⟨hvalid, hserver⟩
      refine ⟨by rw [hget]; rfl, hserver, fun server hmem => ?_⟩
      rw [serverNodes, hnodes, List.mem_flatMap] at hmem
      obtain ⟨http, hhttp, hmem⟩ := hmem
      exact hvalid http hhttp server hmem
    · intro hvalid
      refine ⟨fun http hhttp server hmem => hvalid.valid server ?_, hvalid.server⟩
      rw [serverNodes, hnodes, List.mem_flatMap]
      exact ⟨http, hhttp, hmem⟩

/-- The servers under a listen value are the blocks with that value, in their order. -/
theorem find?_serversOf (c : ServConf) (listen : Bytes) :
    ((serversOf c).find? listen).getD [] =
      ((serverNodes c).filter fun s => listenOf s = listen).map serverOf := by
  rw [OrderedMap.find?, entries_serversOf, SortedEntries.find?_groupByKey]
  split
  · -- the entry holds the servers of the blocks that listen there
    rw [Option.getD_some, List.filter_map, List.map_map]
    refine congrArg (List.map serverOf) (List.filter_congr fun s _ => ?_)
    exact decide_eq_decide.mpr Iff.rfl
  · rename_i hmem
    -- no block listens there, so there is no entry, either
    have hnone : (serverNodes c).filter (fun s => listenOf s = listen) = [] := by
      rw [List.filter_eq_nil_iff]
      intro s hs heq
      refine hmem ?_
      simp only [List.map_map, List.mem_map, Function.comp_apply]
      exact ⟨s, hs, by simpa using heq⟩
    simp [hnone]

/-- A configuration is accepted exactly when its blocks are valid, and then `servers`
    groups the server blocks by what they listen on. -/
theorem from_groups {c : ServConf} (h : c.Full) :
    ((Config.from c).isOk = true ↔ ValidConf c) ∧
      ∀ conf, Config.from c = .ok conf →
        (∀ listen, (conf.servers.find? listen).getD [] =
          ((serverNodes c).filter fun s => listenOf s = listen).map serverOf) ∧
        (∀ e ∈ conf.servers.entries, e.2 ≠ []) ∧
        (conf.servers.entries.map fun e => e.2.length).sum = (serverNodes c).length := by
  have hfrom := okWhen_from h
  refine ⟨hfrom.isOk_iff, fun conf hconf => ?_⟩
  -- the map is the grouping of the server blocks by their listen values
  obtain ⟨-, rfl⟩ := (hfrom conf).mp hconf
  refine ⟨find?_serversOf c, ?_, ?_⟩
  · rw [entries_serversOf]
    exact fun e he => SortedEntries.ne_nil_of_mem_groupByKey he
  · rw [entries_serversOf, SortedEntries.sum_length_groupByKey, List.length_map]

/-- Two http blocks, and two server blocks with different listen values. -/
def twoServers : Bytes :=
  ascii ("http \x7b server \x7b listen 8080; location / \x7b root /a; \x7d \x7d \x7d" ++
    " http \x7b server \x7b server_name b; location / \x7b accepted_method GET; \x7d \x7d \x7d")

/-- Both servers are there, and nothing else. -/
theorem from_groups_twoServers :
    ∃ c conf, ServConf.from twoServers = .ok c ∧ Config.from c = .ok conf ∧ ValidConf c ∧
      (conf.servers.entries.map fun e => e.2.length).sum = (serverNodes c).length := by
  have hok : ((ServConf.from twoServers).toOption.any fun c => (Config.from c).isOk) = true := by
    decide +kernel
  cases hc : ServConf.from twoServers with
  | error e =>
    rw [hc] at hok
    cases hok
  | ok c =>
    rw [hc] at hok
    have hgroups := from_groups (Conf.full_of_from hc)
    obtain ⟨conf, hconf⟩ := Except.exists_ok_of_isOk hok
    exact ⟨c, conf, rfl, hconf, hgroups.1.mp hok, (hgroups.2 conf hconf).2.2⟩

end Config

end Webserv
