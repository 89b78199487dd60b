import RpictlMcp.HardwareAddress
import RpictlMcp.IdentityGrammar
import RpictlMcp.PowerCommandRuns

/-!
# rpictl-mcp: the identity check against the neighbour table

`power_state_until` looks for the configured hardware address in the table that
`ip neigh` prints.  The address has only been trimmed and put into one spelling;
nothing says that it is an address at all, and the search accepts it inside any
longer text.  This module relates the check to what it is for: that the table
lists the configured device.  It does so for six octets, in the tables in which
every address stands alone; any other value is found in a table that lists no
device.
-/

namespace RpictlMcp

open Prog

/-- The last child of a run has printed the neighbour table. -/
structure NeighborsPrinted (log : List BoardCall) (success : Bool)
    (table : List UInt8) : Prop where
  printed : ∃ before after,
    log = before ++ ⟨.spawn listNeighbors, none⟩ :: after ∧
      (∀ c ∈ after, spawns c = false) ∧
      ⟨.tryWait, .ok (some success)⟩ ∈ after ∧
      table = bytesRead .stdout after ∧ ReadToEnd .stdout after

/--
In every run of the power query on an identity, an identity that is taken as
verified against a table of some form is that of a listed device.
-/
def VerifiesListed (identity : String) (address : Text)
    (Table : List UInt8 → Prop) : Prop :=
  ∀ (profile : BoardProfile) (deadline : Nat) (observation : PowerObservation)
    (log : List BoardCall), profile.power.identity = identity →
    Returns (logSem calls) (powerStateUntil profile deadline).run []
      (.ok observation) log →
    ∃ success table, NeighborsPrinted log success table ∧
      (Table table → observation.identityVerified = true →
        success = true ∧ ListsDevice table address)

section IdentityCheck

variable {profile : BoardProfile} {deadline : Nat} {base log : List BoardCall}
variable {identity : Identity} {value : List Char}

/-- What the identity check has found out, with the table it has read. -/
def ChecksTable (identity : Identity) (verified : Bool)
    (log : List BoardCall) : Prop :=
  ∀ mac, identity.mac = some mac → ∃ (now : Nat) (neighbors : Output)
    (after : List BoardCall),
      log = ⟨.instantNow, now⟩ :: ⟨.spawn listNeighbors, none⟩ :: after ∧
        EndsCommand (.ok neighbors) after ∧ verified = namesMac neighbors mac

theorem verifyIdentity_calls :
    Traces calls ReapsOnce (verifyIdentity identity deadline).run base
      fun r t => ∀ verified, r = .ok verified →
        ChecksTable identity verified t := by
  unfold verifyIdentity
  cases hmac : identity.mac with
  | none =>
      refine Traces.pure ?_
      rintro verified ⟨⟩ mac hsome
      rw [hmac] at hsome
      cases hsome
  | some mac =>
      refine Traces.bindE runPowerCommand_calls ?_ ?_
      · intro neighbors t hcommand
        refine Traces.pure ?_
        rintro verified ⟨⟩ other hother
        obtain rfl : mac = other := by simpa [hmac] using hother
        cases hcommand with
        | unlaunched hresult => cases hresult
        | launched now hends =>
            exact ⟨now, neighbors, _, by simp, hends, rfl⟩
      · rintro e t - verified ⟨⟩

/-- The rule for a result that has already been computed. -/
theorem Traces.computed {α β : Type} {result : Result α} {f : α → Action β}
    {Ψ : Result β → List BoardCall → Prop}
    (hok : ∀ a, result = .ok a → Traces calls ReapsOnce (f a).run base Ψ)
    (herror : ∀ e, result = .error e → Ψ (.error e) []) :
    Traces calls ReapsOnce (ofResult result >>= f).run base Ψ := by
  cases result with
  | ok a => exact hok a rfl
  | error e => exact Traces.pure (herror e rfl)

theorem powerStateUntil_calls :
    Traces calls ReapsOnce (powerStateUntil profile deadline).run base
      fun r t => ∀ observation, r = .ok observation →
        ∃ identity front checked,
          parseIdentity profile.power.identity = .ok identity ∧
          t = front ++ checked ++ [⟨.note (.queried observation), ()⟩] ∧
          ChecksTable identity observation.identityVerified checked := by
  unfold powerStateUntil
  split
  · refine Traces.pure ?_
    rintro observation ⟨⟩
  · refine Traces.computed ?_ fun e _ observation h => nomatch h
    intro identity hidentity
    refine Traces.bindE runPowerCommand_calls ?_ ?_
    · intro output t _
      split
      · refine Traces.pure ?_
        rintro observation ⟨⟩
      · refine Traces.bindE verifyIdentity_calls ?_ ?_
        · intro verified checked hchecks
          refine Traces.callE fun _ =>
            ⟨ReapsOnce.of_quiet ⟨rfl, rfl, rfl⟩, Traces.pure ?_⟩
          rintro observation ⟨⟩
          exact ⟨identity, t, checked, hidentity, by simp, hchecks _ rfl⟩
        · rintro e checked - observation ⟨⟩
    · rintro e t - observation ⟨⟩

/-- The address of the last mac entry is what the check looks for. -/
theorem mac_of_lastEntry
    (hparse : parseIdentity profile.power.identity = .ok identity)
    (hmac : LastEntry (identityParts profile.power.identity) "mac".toList
      value) :
    identity.mac = some (String.ofList (normalizeMac value)) := by
  have hparsed := (parseIdentity_eq_ok_iff.mp hparse).2.2.2.2
  rw [lastWritten_eq_some_iff.mpr hmac] at hparsed
  exact hparsed

/-- A command that has ended shows what its child has printed. -/
theorem NeighborsPrinted.of_command {now : Nat} {neighbors : Output}
    {front after : List BoardCall} {call : BoardCall}
    (hends : EndsCommand (.ok neighbors) after) (hcall : spawns call = false)
    (hreads : ∀ pipe, reads pipe call = false) :
    NeighborsPrinted (front ++
        (⟨.instantNow, now⟩ :: ⟨.spawn listNeighbors, none⟩ :: after) ++ [call])
      neighbors.success neighbors.stdout := by
  obtain ⟨hcollects, loop, hloop, hquiet⟩ := hends
  refine ⟨front ++ [⟨.instantNow, now⟩], after ++ [call], by simp, ?_,
    List.mem_append_left _ hcollects.exited, ?_,
    hcollects.stdoutEnded.append (by simpa using hreads .stdout)⟩
  · intro c hc
    rcases List.mem_append.mp hc with hc | hc
    · rw [hloop] at hc
      rcases List.mem_append.mp hc with hc | hc
      · exact (hquiet c hc).1
      · obtain rfl := List.mem_singleton.mp hc
        rfl
    · obtain rfl := List.mem_singleton.mp hc
      exact hcall
  · rw [bytesRead_append, bytesRead_cons, readFrom_eq_nil (hreads .stdout),
      hcollects.stdout]
    simp

/-- What a run of the power query has read and found. -/
theorem checked_of_returns {observation : PowerObservation}
    (hmac : LastEntry (identityParts profile.power.identity) "mac".toList
      value)
    (hrun : Returns (logSem calls) (powerStateUntil profile deadline).run []
      (.ok observation) log) :
    ∃ success table, NeighborsPrinted log success table ∧
      table.length ≤ maxPowerOutputBytes ∧
      (observation.identityVerified = true ↔ success = true ∧
        contains (toAsciiLowercase (fromUtf8Lossy table))
          (configuredAddress value) = true) := by
  obtain ⟨t, rfl, hresult⟩ := powerStateUntil_calls.returns hrun
  obtain ⟨identity, front, checked, hparse, rfl, hchecks⟩ :=
    hresult observation rfl
  obtain ⟨now, neighbors, after, rfl, hends, hverified⟩ :=
    hchecks _ (mac_of_lastEntry hparse hmac)
  refine ⟨neighbors.success, neighbors.stdout,
    NeighborsPrinted.of_command hends rfl fun _ => rfl, ?_, ?_⟩
  · have hbounded := hends.1.bounded
    omega
  · rw [hverified, namesMac, ← configuredAddress, Bool.and_eq_true]

/-- The observation of a query whose second command prints a table. -/
def printedObservation (relay : PipeData) (table : List UInt8)
    (mac : String) : PowerObservation :=
  ⟨queriedState (Output.raw ⟨true, relay.val, []⟩),
    namesMac ⟨true, table, []⟩ mac,
    takeChars 4096 (Output.raw ⟨true, relay.val, []⟩)⟩

/-- The calls of such a query. -/
def printedQuery (identity : Identity) (relay : PipeData)
    (table : List UInt8) (mac : String) : List BoardCall :=
  briefCalls (readRelay identity) relay true ++
    trickledCalls listNeighbors table true ++
    [⟨.note (.queried (printedObservation relay table mac)), ()⟩]

/-- A power query can read any table within the limit. -/
theorem powerStateUntil_printed {mac : String} (relay : PipeData)
    {table : List UInt8} (hdeadline : 0 < deadline)
    (hbackend : profile.power.backend = "matter")
    (hparse : parseIdentity profile.power.identity = .ok identity)
    (hmac : identity.mac = some mac)
    (hroom : table.length ≤ maxPowerOutputBytes) :
    Returns (logSem calls) (powerStateUntil profile deadline).run []
      (.ok (printedObservation relay table mac))
      (printedQuery identity relay table mac) := by
  unfold powerStateUntil
  rw [if_neg (not_not.mpr hbackend), hparse]
  refine (Returns.pure (Except.ok identity) _).bindE ?_
  refine (runPowerCommand_brief hdeadline _ relay true).bindE ?_
  refine Returns.bindE (a := namesMac ⟨true, table, []⟩ mac)
    (v := [] ++ briefCalls (readRelay identity) relay true ++
      trickledCalls listNeighbors table true) ?_ ?_
  · unfold verifyIdentity
    rw [hmac]
    exact (runPowerCommand_trickled hdeadline _ hroom true).bindE
      (Returns.pure _ _)
  · exact Returns.call (r := ()) (Returns.pure _ _)

theorem bytesRead_byteCalls (table : List UInt8) :
    bytesRead .stdout (table.flatMap byteCalls) = table := by
  induction table with
  | nil => rfl
  | cons x table ih =>
      rw [List.flatMap_cons, bytesRead_append, ih]
      rfl

/-- The second command of such a query has printed the table. -/
theorem neighborsPrinted_printedQuery {mac : String} {relay : PipeData}
    {table : List UInt8} :
    NeighborsPrinted (printedQuery identity relay table mac) true table := by
  refine ⟨briefCalls (readRelay identity) relay true ++
      [⟨.instantNow, (0 : Nat)⟩],
    (trickledCalls listNeighbors table true).drop 2 ++
      [⟨.note (.queried (printedObservation relay table mac)), ()⟩],
    by simp [printedQuery, trickledCalls, callsBeforeLoop], ?_, ?_, ?_, ?_⟩
  · intro c hc
    simp only [trickledCalls, callsBeforeLoop, setUpCalls, byteCalls,
      List.cons_append, List.nil_append, List.drop_succ_cons, List.drop_zero,
      List.append_assoc, List.mem_cons, List.mem_append, List.mem_flatMap,
      List.not_mem_nil, or_false] at hc
    rcases hc with rfl | rfl | rfl | rfl | rfl | rfl | ⟨x, -, rfl | rfl⟩ |
      rfl | rfl | rfl | rfl <;> rfl
  · simp [trickledCalls, callsBeforeLoop]
  · simp [trickledCalls, callsBeforeLoop, setUpCalls, readFrom,
      bytesRead_byteCalls]
  · refine ⟨setUpCalls ++ [⟨.instantNow, (0 : Nat)⟩,
        ⟨.readPipe .stdout, .wouldBlock⟩, ⟨.readPipe .stderr, .eof⟩,
        ⟨.sleep 10, ()⟩] ++ table.flatMap byteCalls ++
        [⟨.instantNow, (0 : Nat)⟩], ⟨.readPipe .stdout, .eof⟩, _,
      by simp [trickledCalls, callsBeforeLoop]; rfl, rfl, ?_, ?_⟩
    · intro c hc
      simp only [setUpCalls, byteCalls, List.cons_append, List.nil_append,
        List.mem_cons, List.mem_append, List.mem_flatMap,
        List.not_mem_nil, or_false] at hc
      rcases hc with rfl | rfl | rfl | rfl | rfl | rfl | ⟨x, -, rfl | rfl⟩ |
        rfl <;> rfl
    · simp [reads]

/-- What stands behind the last spawn of a log is one list. -/
theorem NeighborsPrinted.unique {success success' : Bool}
    {table table' : List UInt8} (h : NeighborsPrinted log success table)
    (h' : NeighborsPrinted log success' table') : table = table' := by
  have hlater : ∀ {before before' after after' : List BoardCall},
      before ++ ⟨.spawn listNeighbors, none⟩ :: after =
        before' ++ ⟨.spawn listNeighbors, none⟩ :: after' →
      (∀ c ∈ after, spawns c = false) → after.length ≤ after'.length := by
    intro before before' after after' heq hnone
    by_contra hlt
    have hlong : ⟨.spawn listNeighbors, none⟩ :: after' <:+
        before ++ ⟨.spawn listNeighbors, none⟩ :: after := by
      rw [heq]
      exact List.suffix_append _ _
    have hshort : after <:+ before ++ ⟨.spawn listNeighbors, none⟩ :: after :=
      (List.suffix_cons _ _).trans (List.suffix_append _ _)
    have hsuffix : ⟨.spawn listNeighbors, none⟩ :: after' <:+ after :=
      List.suffix_of_suffix_length_le hlong hshort (by simp; omega)
    have := hnone _ (hsuffix.subset List.mem_cons_self)
    cases this
  obtain ⟨before, after, rfl, hnone, -, rfl, -⟩ := h.printed
  obtain ⟨before', after', heq, hnone', -, rfl, -⟩ := h'.printed
  have hle := hlater heq hnone
  have hge := hlater heq.symm hnone'
  obtain ⟨-, hafter⟩ := List.append_inj' heq (by
    simp only [List.length_cons]
    omega)
  rw [(List.cons.inj hafter).2]

/-- A table that contains the value and does not list the device. -/
theorem not_verifiesListed {name : String} (table : List UInt8)
    {Table : List UInt8 → Prop} (hparse : parseIdentity name = .ok identity)
    (hmac : LastEntry (identityParts name) "mac".toList value)
    (hroom : table.length ≤ maxPowerOutputBytes) (htable : Table table)
    (hfound : contains (toAsciiLowercase (fromUtf8Lossy table))
      (configuredAddress value) = true)
    (hlists : ¬ListsDevice table (configuredAddress value)) :
    ¬VerifiesListed name (configuredAddress value) Table := by
  intro h
  let named : BoardProfile := { simulated with power := ⟨"matter", name⟩ }
  have hnamed : parseIdentity named.power.identity = .ok identity := hparse
  have hvalue : identity.mac = some (String.ofList (normalizeMac value)) :=
    mac_of_lastEntry hnamed hmac
  obtain ⟨success, read, hprinted, hlisted⟩ := h named 1 _ _ rfl
    (powerStateUntil_printed relayOn (by decide) rfl hnamed hvalue hroom)
  obtain rfl := hprinted.unique neighborsPrinted_printedQuery
  have hverified : (printedObservation relayOn read
      (String.ofList (normalizeMac value))).identityVerified = true := by
    rw [printedObservation, namesMac, Bool.true_and]
    exact hfound
  exact hlists (hlisted htable hverified).2

/-- A search that needs the table to be long, or finds what is listed. -/
theorem verifiesListed_of_contains {name : String}
    {Table : List UInt8 → Prop}
    (hmac : LastEntry (identityParts name) "mac".toList value)
    (h : ∀ table, Table table → table.length ≤ maxPowerOutputBytes →
      contains (toAsciiLowercase (fromUtf8Lossy table))
        (configuredAddress value) = true →
      ListsDevice table (configuredAddress value)) :
    VerifiesListed name (configuredAddress value) Table := by
  rintro profile deadline observation log rfl hrun
  obtain ⟨success, table, hprinted, hroom, hverified⟩ :=
    checked_of_returns hmac hrun
  refine ⟨success, table, hprinted, fun htable htrue => ?_⟩
  obtain ⟨hsuccess, hfound⟩ := hverified.mp htrue
  exact ⟨hsuccess, h table htable hroom hfound⟩

/--
Among the well-formed texts in which every address stands alone, a verified
identity is that of a listed device exactly if the value of its mac entry is six
octets, or cannot occur in such a text, since it has an address in a longer run
or is longer than what is read.  Among all well-formed texts only the last one
helps.  For six octets the texts need not be well-formed.
-/
theorem identityCheck_iff {name : String}
    (hparse : parseIdentity name = .ok identity)
    (hmac : LastEntry (identityParts name) "mac".toList value) :
    (VerifiesListed name (configuredAddress value)
        (fun table => isUtf8 table = true ∧ AddressesWhole table) ↔
      SixOctets (configuredAddress value) ∨
        ¬AddressesWhole (configuredAddress value) ∨
        maxPowerOutputBytes < (configuredAddress value).length) ∧
    (VerifiesListed name (configuredAddress value)
        (fun table => isUtf8 table = true) ↔
      maxPowerOutputBytes < (configuredAddress value).length) ∧
    (SixOctets (configuredAddress value) →
      VerifiesListed name (configuredAddress value)
        fun table => AddressesWhole (fromUtf8Lossy table)) := by
  have hdecoded : fromUtf8Lossy (configuredAddress value) =
      configuredAddress value := fromUtf8Lossy_utf8 _
  have hitself : contains (toAsciiLowercase
      (fromUtf8Lossy (configuredAddress value)))
        (configuredAddress value) = true := by
    rw [hdecoded, toAsciiLowercase_configuredAddress]
    exact contains_iff.mpr List.infix_rfl
  have hlong : ∀ table, isUtf8 table = true →
      table.length ≤ maxPowerOutputBytes →
      contains (toAsciiLowercase (fromUtf8Lossy table))
        (configuredAddress value) = true →
      (configuredAddress value).length ≤ maxPowerOutputBytes := by
    intro table hutf8 hroom hfound
    rw [fromUtf8Lossy_of_isUtf8 hutf8] at hfound
    have hlength := (contains_iff.mp hfound).length_le
    rw [toAsciiLowercase_eq, List.length_map] at hlength
    omega
  have hsix : SixOctets (configuredAddress value) →
      VerifiesListed name (configuredAddress value)
        fun table => AddressesWhole (fromUtf8Lossy table) := by
    intro haddress
    exact verifiesListed_of_contains hmac fun table hwhole _ hfound =>
      ⟨haddress, hwhole.lists haddress hfound⟩
  refine ⟨⟨?_, ?_⟩, ⟨?_, ?_⟩, hsix⟩
  · intro h
    by_contra hcondition
    simp only [not_or, not_not, not_lt] at hcondition
    obtain ⟨hnot, hwhole, hroom⟩ := hcondition
    -- The value itself is a text that contains it and lists no device.
    exact not_verifiesListed _ hparse hmac hroom ⟨isUtf8_utf8 _, hwhole⟩
      hitself
      (fun hlists => hnot hlists.1) h
  · rintro (haddress | hrun | hlength)
    · refine verifiesListed_of_contains hmac ?_
      rintro table ⟨hutf8, hwhole⟩ - hfound
      rw [← fromUtf8Lossy_of_isUtf8 hutf8] at hwhole
      exact ⟨haddress, hwhole.lists haddress hfound⟩
    · refine verifiesListed_of_contains hmac ?_
      rintro table ⟨hutf8, hwhole⟩ - hfound
      rw [fromUtf8Lossy_of_isUtf8 hutf8] at hfound
      exact absurd (hwhole.of_contains hfound) hrun
    · refine verifiesListed_of_contains hmac ?_
      rintro table ⟨hutf8, -⟩ hroom hfound
      have := hlong table hutf8 hroom hfound
      omega
  · intro h
    by_contra hroom
    rw [not_lt] at hroom
    by_cases haddress : SixOctets (configuredAddress value)
    · -- The address goes on.
      have hmore : isUtf8 (configuredAddress value ++ utf8 ":00") = true := by
        rw [configuredAddress, ← utf8_append]
        exact isUtf8_utf8 _
      refine not_verifiesListed (configuredAddress value ++ utf8 ":00") hparse
        hmac ?_ hmore ?_ ?_ h
      · have hthree : (utf8 ":00").length = 3 := by decide
        rw [List.length_append, haddress.length, hthree]
        decide
      · rw [fromUtf8Lossy_of_isUtf8 hmore, toAsciiLowercase_eq,
          List.map_append, ← toAsciiLowercase_eq,
          toAsciiLowercase_configuredAddress]
        exact contains_iff.mpr (List.prefix_append _ _).isInfix
      · rintro ⟨-, hlists⟩
        rw [fromUtf8Lossy_of_isUtf8 hmore] at hlists
        exact not_listsWhole_longer haddress hlists
    · exact not_verifiesListed _ hparse hmac hroom (isUtf8_utf8 _) hitself
        (fun hlists => haddress hlists.1) h
  · intro hlength
    refine verifiesListed_of_contains hmac ?_
    intro table hutf8 hroom hfound
    have := hlong table hutf8 hroom hfound
    omega

/-- An address that is spelled in capitals and with dashes. -/
theorem identityCheck_iff_spelled :
    VerifiesListed "node=1;endpoint=1;mac=02-00-00-00-00-0A"
      (configuredAddress "02-00-00-00-00-0A".toList)
      fun table => isUtf8 table = true ∧ AddressesWhole table := by
  have hmac : LastEntry
      (identityParts "node=1;endpoint=1;mac=02-00-00-00-00-0A")
      "mac".toList "02-00-00-00-00-0A".toList :=
    lastWritten_eq_some_iff.mp (by decide)
  have hparse : parseIdentity "node=1;endpoint=1;mac=02-00-00-00-00-0A" =
      .ok ⟨"1", "1", some "02:00:00:00:00:0a"⟩ := by
    decide
  have haddress :
      SixOctets (configuredAddress "02-00-00-00-00-0A".toList) :=
    ⟨[utf8 "02", utf8 "00", utf8 "00", utf8 "00", utf8 "00", utf8 "0a"], rfl,
      by decide, by decide⟩
  exact (identityCheck_iff hparse hmac).1.mpr (.inl haddress)

/-- A neighbour table with one device. -/
def oneNeighbor : List UInt8 :=
  utf8 "192.168.1.9 lladdr 02:00:00:00:00:09"

/-- An identity with an empty address is verified against any table. -/
theorem identityCheck_empty :
    parseIdentity "node=1;endpoint=1;mac=" = .ok ⟨"1", "1", some ""⟩ ∧
      LastEntry (identityParts "node=1;endpoint=1;mac=") "mac".toList [] ∧
      ∃ profile observation log,
        profile.power.identity = "node=1;endpoint=1;mac=" ∧
        Returns (logSem calls) (powerStateUntil profile 1).run []
          (.ok observation) log ∧
        observation.identityVerified = true ∧
        NeighborsPrinted log true oneNeighbor ∧
        ¬ListsDevice oneNeighbor (configuredAddress []) := by
  have hparse : parseIdentity "node=1;endpoint=1;mac=" =
      .ok ⟨"1", "1", some ""⟩ := by
    decide
  have hroom : oneNeighbor.length ≤ maxPowerOutputBytes := by decide
  refine ⟨hparse, lastWritten_eq_some_iff.mp (by decide),
    { simulated with power := ⟨"matter", "node=1;endpoint=1;mac="⟩ }, _, _, rfl,
    powerStateUntil_printed relayOn (by decide) rfl hparse rfl hroom, ?_,
    neighborsPrinted_printedQuery, ?_⟩
  · have hfound : contains (toAsciiLowercase
        (fromUtf8Lossy oneNeighbor)) [] = true :=
      contains_iff.mpr List.nil_infix
    exact hfound
  · rintro ⟨haddress, -⟩
    have hempty : (configuredAddress []).length = 0 := by decide
    rw [haddress.length] at hempty
    cases hempty

end IdentityCheck

end RpictlMcp
