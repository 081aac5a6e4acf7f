import Webserv.Native.AsyncMain
import Webserv.Spec.DecimalCorrect
import Webserv.Spec.ServerPipelineCorrect

/-!
# The two readers of a `host:port` setting

`server_pipeline` splits `proxy_pass` at its colon.  `async_main` splits a
listen value into variables that nothing reads, and takes the port from the
whole value.

## Key results

- `listenAddress_eq`: the port `async_main` takes from a listen value
- `createServers_calls`, `asyncMain_calls`: `Server::create` is called with these ports
- `readersAgree_iff`: when the two readers find the port that is meant
-/

namespace Webserv

open Config

/-! ## `async_main` -/

/-- The whole listen value is read as the port. -/
theorem listenAddress_eq (listen : Bytes) :
    listenAddress listen = .ok ([], (atoi listen % 2 ^ 16).toNat) := by
  rw [listenAddress, find_zero]
  cases hcut : listen.cutAt Byte.colon with
  | none => rfl
  | some p =>
    -- the two parts are cut out, and are not used
    obtain ⟨ip, port⟩ := p
    obtain ⟨rfl, -⟩ := List.cutAt_eq_some_iff.mp hcut
    dsimp only [Option.map_some]
    rw [substr_zero_cut, substrFrom_cut]
    rfl

/-- The call for one listen value and its servers. -/
def createCallOf (entry : Bytes × List Server) : CreateCall :=
  ⟨[], (atoi entry.1 % 2 ^ 16).toNat, entry.2⟩

/-- `Server::create` is called for one listen value after the other, up to the first it
    fails for. -/
theorem createServers_calls (create : Bytes → ℕ → Except Io.Error Unit)
    (servers : List (Bytes × List Server)) :
    ∃ calls exit, createServers create servers = .ok (calls, exit) ∧
      calls <+: servers.map createCallOf ∧ (exit = none → calls = servers.map createCallOf) := by
  induction servers with
  | nil => exact ⟨[], none, rfl, List.nil_prefix, fun _ => rfl⟩
  | cons entry rest ih =>
    obtain ⟨listen, servInfo⟩ := entry
    obtain ⟨calls, exit, hrest, hinit, hall⟩ := ih
    rw [createServers, listenAddress_eq]
    dsimp only [bind, Except.bind]
    cases hcreate : create [] (atoi listen % 2 ^ 16).toNat with
    | error err =>
      -- the call that fails is the last one
      refine ⟨_, _, rfl, ?_, fun hexit => nomatch hexit⟩
      exact (List.prefix_cons_inj _).mpr List.nil_prefix
    | ok _ =>
      dsimp only
      rw [hrest]
      refine ⟨_, _, rfl, (List.prefix_cons_inj _).mpr hinit, fun hexit => ?_⟩
      rw [hall hexit]
      rfl

/-- `async_main` does not throw, and its servers are those of an accepted configuration. -/
theorem asyncMain_calls (env : Startup) :
    ∃ calls exit, asyncMain env = .ok (calls, exit) ∧
      ∀ call ∈ calls, ∃ confFile servConf config, env.confFile = some confFile ∧
        ServConf.from confFile = .ok servConf ∧ Config.from servConf = .ok config ∧
        ∃ entry ∈ config.servers.entries, call = createCallOf entry := by
  unfold asyncMain
  -- an exit in front of the loop comes without a call
  by_cases hargc : env.argc ≠ 2
  · rw [if_pos hargc]
    exact ⟨_, _, rfl, fun call hcall => nomatch hcall⟩
  rw [if_neg hargc]
  cases hfile : env.confFile with
  | none => exact ⟨_, _, rfl, fun call hcall => nomatch hcall⟩
  | some confFile =>
    dsimp only
    cases hservConf : ServConf.from confFile with
    | error err => exact ⟨_, _, rfl, fun call hcall => nomatch hcall⟩
    | ok servConf =>
      dsimp only
      cases hconfig : Config.from servConf with
      | error err => exact ⟨_, _, rfl, fun call hcall => nomatch hcall⟩
      | ok config =>
        obtain ⟨calls, exit, hcalls, hinit, -⟩ :=
          createServers_calls env.create config.servers.entries
        refine ⟨calls, exit, hcalls, fun call hcall => ?_⟩
        obtain ⟨entry, hentry, rfl⟩ := List.mem_map.mp (hinit.subset hcall)
        exact ⟨confFile, servConf, config, rfl, hservConf, hconfig, entry, hentry, rfl⟩

/-! ## Settings -/

/-- A setting: digits, or an ip, a colon and digits. -/
def hostPort (ip : Option Bytes) (digits : Bytes) : Bytes :=
  match ip with
  | none => digits
  | some ip => ip ++ Byte.colon :: digits

/-- Both readers find port `n`, or refuse the setting if there is no such port. -/
def ReadersAgree (setting : Bytes) (n : ℕ) : Prop :=
  if n < 2 ^ 16 then
    (listenAddress setting).toOption.map Prod.snd = some n ∧
      (proxyAddress setting).toOption.map Prod.snd = some n
  else
    (listenAddress setting).toOption = none ∧ (proxyAddress setting).toOption = none

instance (setting : Bytes) (n : ℕ) : Decidable (ReadersAgree setting n) :=
  inferInstanceAs (Decidable (if n < 2 ^ 16 then _ else _))

/-- The number in front of a colon is what the whole setting is read as. -/
theorem atoi_append_colon (ip rest : Bytes) : atoi (ip ++ Byte.colon :: rest) = atoi ip := by
  rw [atoi, scanNumber_append_cons (by decide) (by decide) (by decide) (by decide)]
  rfl

/-- `async_main` reads what stands in front of the colon. -/
theorem listenAddress_hostPort (ip : Option Bytes) (digits : Bytes) :
    (listenAddress (hostPort ip digits)).toOption.map Prod.snd =
      some (atoi (ip.getD digits) % 2 ^ 16).toNat := by
  rw [listenAddress_eq]
  cases ip with
  | none => rfl
  | some s =>
    rw [hostPort, atoi_append_colon]
    rfl

/-- The proxy branch reads the digits. -/
theorem proxyAddress_hostPort {ip : Option Bytes} {digits : Bytes}
    (hip : ∀ s ∈ ip, Byte.colon ∉ s) (hdigits : ∀ d ∈ digits, isDigit d = true) :
    (proxyAddress (hostPort ip digits)).toOption.map Prod.snd =
      some (atoi digits % 2 ^ 16).toNat := by
  rw [proxyAddress_eq]
  cases ip with
  | none =>
    -- a colon is no digit
    have hcolon : Byte.colon ∉ digits := fun hmem => absurd (hdigits _ hmem) (by decide)
    rw [hostPort, upstream, List.cutAt_eq_none_iff.mpr hcolon]
    rfl
  | some s =>
    rw [hostPort, upstream, List.cutAt_append_cons digits (hip s rfl)]
    rfl

/-- The two readers agree exactly when there is such a port and the ip, if there is one,
    starts with a number that stands for it, too. -/
theorem readersAgree_iff {ip : Option Bytes} {digits : Bytes} (hip : ∀ s ∈ ip, Byte.colon ∉ s)
    (hne : digits ≠ []) (hdigits : ∀ d ∈ digits, isDigit d = true) :
    ReadersAgree (hostPort ip digits) (digitsValue digits) ↔
      digitsValue digits < 2 ^ 16 ∧
        ∀ s ∈ ip, (atoi s % 2 ^ 16).toNat = digitsValue digits := by
  unfold ReadersAgree
  by_cases hlt : digitsValue digits < 2 ^ 16
  · -- the digits are read back
    have hatoi : atoi digits = digitsValue digits :=
      atoi_of_scanNumber (scanNumber_of_digits hne hdigits) (by omega)
    have hport : (atoi digits % 2 ^ 16).toNat = digitsValue digits := by omega
    rw [if_pos hlt, listenAddress_hostPort, proxyAddress_hostPort hip hdigits, hport,
      Option.some.injEq]
    cases ip with
    | none => exact iff_of_true ⟨hport, rfl⟩ ⟨hlt, fun s hs => nomatch hs⟩
    | some s =>
      -- the server reads the part in front of the colon, the proxy the one behind it
      constructor
      · rintro ⟨hs, -⟩
        refine ⟨hlt, fun s' hs' => ?_⟩
        cases hs'
        exact hs
      · rintro ⟨-, hs⟩
        exact ⟨hs s rfl, rfl⟩
  · -- a port is passed on all the same
    rw [if_neg hlt, listenAddress_eq]
    exact iff_of_false (fun hnone => nomatch hnone.1) fun hagree => hlt hagree.1

/-- A setting without an ip, and one with an ip that starts with the port. -/
theorem readersAgree_digits :
    ReadersAgree (hostPort none (ascii "8080")) (digitsValue (ascii "8080")) ∧
      ReadersAgree (hostPort (some (ascii "127.0.0.1")) (ascii "127")) (digitsValue (ascii "127")) :=
  ⟨(readersAgree_iff (by simp) (by decide) (by decide +kernel)).mpr ⟨by decide, by simp⟩,
    (readersAgree_iff (by decide) (by decide) (by decide +kernel)).mpr
      ⟨by decide, by decide +kernel⟩⟩

/-- With the ip in front the server listens on port 127. -/
theorem readersAgree_false :
    ¬ ∀ (ip : Option Bytes) (digits : Bytes), (∀ s ∈ ip, Byte.colon ∉ s) → digits ≠ [] →
      (∀ d ∈ digits, isDigit d = true) →
      ReadersAgree (hostPort ip digits) (digitsValue digits) := by
  intro hall
  have hagree := hall (some (ascii "127.0.0.1")) (ascii "8080") (by decide) (by decide)
    (by decide +kernel)
  exact absurd hagree (by decide +kernel)

end Webserv
