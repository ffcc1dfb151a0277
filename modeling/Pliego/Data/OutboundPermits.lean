import Pliego.Data.Outbound
import Pliego.Lib.UrlPath

/-!
What the permits of an outbound guard are good for, over every chain of redirects.
-/

namespace Pliego

open Bytes Text

namespace Data

/-
Policies
-/

inductive OutboundHttpPolicy.Built {U : Type} (parser : UrlParser U) : OutboundHttpPolicy → Prop where
  | new {policy : OutboundHttpPolicy} {id : String} {revision : Nat} (h : OutboundHttpPolicy.new id revision = .ok policy)
    : Built parser policy
  | host {policy after : OutboundHttpPolicy} {host : String} (hbuilt : Built parser policy)
    (h : OutboundHttpPolicy.allowHost parser policy host = .ok after) : Built parser after
  | port {policy after : OutboundHttpPolicy} {port : Nat} (hbuilt : Built parser policy)
    (h : policy.allowPort port = .ok after) : Built parser after
  | path {policy after : OutboundHttpPolicy} {pathPrefix : String} (hbuilt : Built parser policy)
    (h : policy.restrictPathPrefix pathPrefix = .ok after) : Built parser after
  | plainHttp {policy : OutboundHttpPolicy} (hbuilt : Built parser policy) (allowed : Bool)
    : Built parser (policy.allowPlainHttp allowed)
  | privateNetworks {policy : OutboundHttpPolicy} (hbuilt : Built parser policy) (allowed : Bool)
    : Built parser (policy.allowPrivate allowed)
  | limits {policy after : OutboundHttpPolicy} {timeout redirects bytes addresses : Nat} (hbuilt : Built parser policy)
    (h : policy.limits timeout redirects bytes addresses = .ok after) : Built parser after

def EndsOnce (pathPrefix : String) : Prop :=
  ∃ inner : List Char, pathPrefix.toList = inner ++ ['/'] ∧ inner.getLast? ≠ some '/'

def WithinPrefix (pathPrefix path : String) : Prop :=
  pathPrefix = "/" ∨ (split '/' pathPrefix).dropLast <+: split '/' path

section Paths

variable {U : Type} {parser : UrlParser U} {policy : OutboundHttpPolicy} {pathPrefix path : String}

theorem endsOnce_of_isPathPrefix (h : isPathPrefix pathPrefix = true) : pathPrefix = "/" ∨ EndsOnce pathPrefix := by
  by_cases hroot : pathPrefix = "/"
  . exact .inl hroot
  . unfold isPathPrefix at h
    simp only [Bool.not_eq_true', Bool.or_eq_false_iff, Bool.and_eq_false_iff, decide_eq_false_iff_not, ne_eq,
      Bool.not_eq_false'] at h
    obtain ⟨⟨⟨⟨⟨⟨⟨⟨-, -⟩, hends⟩, -⟩, -⟩, -⟩, hpair⟩, -⟩, -⟩ := h
    have hends := hends.resolve_left (fun hnot => hnot hroot)
    unfold endsWith at hends
    obtain ⟨inner, hinner⟩ := List.getLast?_eq_some_iff.mp (of_decide_eq_true hends)
    refine .inr ⟨inner, hinner, fun hlast => ?_⟩
    obtain ⟨rest, hrest⟩ := List.getLast?_eq_some_iff.mp hlast
    have hinfix : ['/', '/'] <:+: pathPrefix.toList := by
      rw [hinner, hrest, List.append_assoc]
      exact (List.suffix_append _ _).isInfix
    rw [UrlPath.containsPair_of_infix hinfix] at hpair
    cases hpair

theorem contains_insert {κ : Type} [LinearOrder κ] {set : SortedSet κ} {k k' : κ}
    (h : SortedSet.contains (set.insert k ()) k' = true)
    : k' = k ∨ set.contains k' = true := by
  unfold SortedSet.contains at h ⊢
  rw [SortedMap.get?_insert] at h
  split at h
  . next hsame => exact .inl hsame
  . exact .inr h

theorem built_prefixes (h : OutboundHttpPolicy.Built parser policy)
    : ∀ pathPrefix, policy.allowedPathPrefixes.contains pathPrefix = true → pathPrefix = "/" ∨ EndsOnce pathPrefix := by
  induction h with
  | new h =>
    unfold OutboundHttpPolicy.new at h
    split at h
    . cases h
    . cases h
      intro pathPrefix hcontains
      rw [SortedSet.contains_ofList, List.mem_singleton] at hcontains
      exact .inl hcontains
  | host hbuilt h ih =>
    unfold OutboundHttpPolicy.allowHost at h
    split at h
    . cases h
    . split at h
      . cases h
      . cases h
        exact ih
  | port hbuilt h ih =>
    unfold OutboundHttpPolicy.allowPort at h
    split at h
    . cases h
    . cases h
      exact ih
  | @path policy after pathPrefix hbuilt h ih =>
    unfold OutboundHttpPolicy.restrictPathPrefix at h
    split at h
    . cases h
    . next hvalid =>
      rw [Bool.not_eq_true', Bool.not_eq_false] at hvalid
      dsimp only at h
      have hkept : ∀ {kept : SortedSet String}, (∀ other, kept.contains other = true → other = "/" ∨ EndsOnce other)
          → ∀ other, SortedSet.contains (kept.insert pathPrefix ()) other = true → other = "/" ∨ EndsOnce other := by
        intro kept hkept other hcontains
        cases contains_insert hcontains with
        | inl hsame =>
          rw [hsame]
          exact endsOnce_of_isPathPrefix hvalid
        | inr hold => exact hkept other hold
      by_cases hfirst : policy.allowedPathPrefixes.len = 1 ∧ policy.allowedPathPrefixes.contains "/" = true ∧ pathPrefix ≠ "/"
      . rw [if_pos hfirst] at h
        split at h
        . cases h
        . cases h
          exact hkept nofun
      . rw [if_neg hfirst] at h
        split at h
        . cases h
        . cases h
          exact hkept ih
  | plainHttp hbuilt allowed ih => exact ih
  | privateNetworks hbuilt allowed ih => exact ih
  | limits hbuilt h ih =>
    unfold OutboundHttpPolicy.limits at h
    split at h
    . cases h
    . cases h
      exact ih

theorem EndsOnce.trimmed (h : EndsOnce pathPrefix)
    : pathPrefix.toList = pathPrefix.toList.rdropWhile (· == '/') ++ ['/'] := by
  obtain ⟨inner, hinner, hlast⟩ := h
  rw [hinner, List.rdropWhile_concat_pos _ _ _ rfl]
  congr 1
  rcases List.eq_nil_or_concat' inner with rfl | ⟨front, last, rfl⟩
  . rfl
  . rw [List.getLast?_concat, ne_eq, Option.some.injEq] at hlast
    rw [List.rdropWhile_concat_neg _ _ _ (by simpa using hlast)]

theorem within_of_allowed (hform : pathPrefix = "/" ∨ EndsOnce pathPrefix)
    (h : (path.toList == pathPrefix.toList.rdropWhile (· == '/') || pathPrefix.toList.isPrefixOf path.toList) = true)
    : WithinPrefix pathPrefix path := by
  cases hform with
  | inl hroot => exact .inl hroot
  | inr hends =>
    apply Or.inr
    have hsplit := hends.trimmed
    have hsegments : (split '/' pathPrefix).dropLast
        = ((pathPrefix.toList.rdropWhile (· == '/')).splitOn '/').map String.ofList := by
      unfold split
      conv_lhs => rw [hsplit]
      rw [List.splitOn_append_cons_self, List.splitOn_nil, List.map_append]
      exact List.dropLast_concat
    rw [hsegments]
    unfold split
    rw [Bool.or_eq_true, beq_iff_eq, List.isPrefixOf_iff_prefix] at h
    cases h with
    | inl hsame => rw [hsame]
    | inr hbegins =>
      obtain ⟨rest, hrest⟩ := hbegins
      rw [hsplit, List.append_assoc, List.singleton_append] at hrest
      rw [← hrest, List.splitOn_append_cons_self, List.map_append]
      exact List.prefix_append _ _

theorem pathIsAllowed_within (hbuilt : OutboundHttpPolicy.Built parser policy)
    (h : pathIsAllowed path policy.allowedPathPrefixes = true)
    : ∃ pathPrefix, policy.allowedPathPrefixes.contains pathPrefix = true ∧ WithinPrefix pathPrefix path := by
  unfold pathIsAllowed at h
  split at h
  . next hroot => exact ⟨"/", hroot, .inl rfl⟩
  . split at h
    . cases h
    . obtain ⟨pathPrefix, hmem, hbegins⟩ := List.any_eq_true.mp h
      have hcontains := SortedSet.mem_keys_iff.mp hmem
      exact ⟨pathPrefix, hcontains, within_of_allowed (built_prefixes hbuilt pathPrefix hcontains) hbegins⟩

end Paths

/-
Authorizing a request
-/

def resolvedAddresses {U : Type} (parser : UrlParser U) (call : OutboundCall) (url : String) : List SocketAddr :=
  match parser.parse url with
  | none => []
  | some parsed =>
    match parser.host parsed, parser.portOrKnownDefault parsed with
    | some host, some port =>
      match resolveHost call host port with
      | .ok addresses => addresses
      | .error _ => []
    | _, _ => []

structure Declared {U : Type} (parser : UrlParser U) (policy : OutboundHttpPolicy) (url : String) (permit : OutboundHttpPermit)
    (parsed : U) : Prop where
  parses : parser.parse url = some parsed
  spelled : permit.url = parser.asStr parsed
  plain : parser.username parsed = "" ∧ parser.password parsed = none ∧ parser.fragment parsed = none
  scheme : parser.scheme parsed = "https" ∨ (parser.scheme parsed = "http" ∧ policy.allowHttp = true)
  host : (parser.host parsed).map normalizeParsedHost = some permit.host ∧ policy.allowedHosts.contains permit.host = true
  port : ∃ port, parser.portOrKnownDefault parsed = some port ∧ policy.allowedPorts.contains port = true
    ∧ ∀ address ∈ permit.addresses, address.port = port
  path : ∃ pathPrefix, policy.allowedPathPrefixes.contains pathPrefix = true
    ∧ WithinPrefix pathPrefix (parser.path parsed)

section Authorize

variable {U : Type} {parser : UrlParser U} {policy : OutboundHttpPolicy} {call : OutboundCall} {url : String}
variable {remaining : Nat} {permit : OutboundHttpPermit}

theorem checkScheme_ok {scheme : String} (h : checkScheme policy scheme = .ok ())
    : scheme = "https" ∨ (scheme = "http" ∧ policy.allowHttp = true) := by
  unfold checkScheme at h
  split at h
  . next hsecure => exact .inl hsecure
  . split at h
    . next hplain => exact .inr hplain
    . cases h

theorem mem_keys_ofList {addresses : List SocketAddr} {address : SocketAddr}
    : address ∈ (SortedSet.ofList addresses).keys ↔ address ∈ addresses := by
  rw [SortedSet.mem_keys_iff, SortedSet.contains_ofList]

theorem checkAddresses_ok {port : Nat} {addresses : List SocketAddr} {unique : SortedSet SocketAddr}
    (h : checkAddresses policy port addresses = .ok unique)
    : (∀ address, address ∈ unique.keys ↔ address ∈ addresses)
      ∧ (∀ address ∈ addresses, address.port = port)
      ∧ (policy.allowPrivateNetworks = true ∨ ∀ address ∈ addresses, isPublicIp address.ip = true) := by
  unfold checkAddresses at h
  split at h
  . cases h
  . dsimp only at h
    split at h
    . cases h
    . next hports =>
      split at h
      . cases h
      . next hpublic =>
        cases h
        rw [List.any_eq_true] at hports
        rw [Bool.and_eq_true, List.any_eq_true, Bool.not_eq_true'] at hpublic
        refine ⟨fun _ => mem_keys_ofList, fun address hmem => ?_, ?_⟩
        . by_contra hother
          exact hports ⟨address, mem_keys_ofList.mpr hmem, by simpa using hother⟩
        . cases hallow : policy.allowPrivateNetworks with
          | true => exact .inl rfl
          | false =>
            apply Or.inr
            intro address hmem
            by_contra hprivate
            exact hpublic ⟨hallow, address, mem_keys_ofList.mpr hmem, by simpa using hprivate⟩

theorem of_ite_error {ε α : Type} {condition : Prop} [Decidable condition] {error : ε} {rest : Except ε α} {value : α}
    (h : (if condition then .error error else rest) = .ok value)
    : ¬ condition ∧ rest = .ok value := by
  split at h
  . cases h
  . next hnot => exact ⟨hnot, h⟩

theorem authorizeInner_ok (hbuilt : OutboundHttpPolicy.Built parser policy)
    (h : authorizeInner parser policy call url remaining = .ok permit)
    : (∃ parsed, Declared parser policy url permit parsed)
      ∧ permit.redirectsRemaining = remaining
      ∧ (∀ address, address ∈ permit.addresses ↔ address ∈ resolvedAddresses parser call url)
      ∧ (policy.allowPrivateNetworks = true ∨ ∀ address ∈ permit.addresses, isPublicIp address.ip = true) := by
  unfold authorizeInner at h
  obtain ⟨-, h⟩ := of_ite_error h
  obtain ⟨-, h⟩ := of_ite_error h
  obtain ⟨-, h⟩ := of_ite_error h
  cases hparse : parser.parse url with
  | none =>
    rw [hparse] at h
    cases h
  | some parsed =>
    rw [hparse] at h
    dsimp only at h
    obtain ⟨hplain, h⟩ := of_ite_error h
    cases hscheme : checkScheme policy (parser.scheme parsed) with
    | error error =>
      rw [hscheme] at h
      cases h
    | ok _ =>
      rw [hscheme] at h
      dsimp only at h
      cases hhost : parser.host parsed with
      | none =>
        rw [hhost] at h
        cases h
      | some host =>
        rw [hhost] at h
        dsimp only at h
        obtain ⟨hallowed, h⟩ := of_ite_error h
        cases hport : parser.portOrKnownDefault parsed with
        | none =>
          rw [hport] at h
          cases h
        | some port =>
          rw [hport] at h
          dsimp only at h
          obtain ⟨hports, h⟩ := of_ite_error h
          obtain ⟨hpath, h⟩ := of_ite_error h
          cases hresolve : resolveHost call host port with
          | error error =>
            rw [hresolve] at h
            cases h
          | ok addresses =>
            rw [hresolve] at h
            dsimp only at h
            cases hcheck : checkAddresses policy port addresses with
            | error error =>
              rw [hcheck] at h
              cases h
            | ok unique =>
              rw [hcheck] at h
              cases h
              obtain ⟨hmem, hsame, hpublic⟩ := checkAddresses_ok hcheck
              have hresolved : resolvedAddresses parser call url = addresses := by
                unfold resolvedAddresses
                rw [hparse]
                dsimp only
                rw [hhost, hport]
                dsimp only
                rw [hresolve]
              simp only [not_or, ne_eq, not_not, Option.isSome_iff_ne_none] at hplain
              rw [hresolved]
              refine ⟨⟨parsed, hparse, rfl, hplain, checkScheme_ok hscheme, ?_, ?_, ?_⟩, rfl, hmem, ?_⟩
              . rw [hhost]
                exact ⟨rfl, Bool.eq_true_of_not_eq_false hallowed⟩
              . refine ⟨port, hport, Bool.eq_true_of_not_eq_false hports, fun address haddress => ?_⟩
                exact hsame address ((hmem address).mp haddress)
              . exact pathIsAllowed_within hbuilt (Bool.eq_true_of_not_eq_false hpath)
              . exact hpublic.imp_right fun hall address haddress => hall address ((hmem address).mp haddress)

end Authorize

/-
Chains of redirects
-/

structure Hop where
  call : OutboundCall
  url : String
  permit : OutboundHttpPermit

inductive Redirects {U : Type} (parser : UrlParser U) (guard : OutboundHttpGuard) : List Hop → Prop where
  | first {call : OutboundCall} {url : String} {permit : OutboundHttpPermit}
    (h : guard.authorize parser call url = .ok permit)
    : Redirects parser guard [⟨call, url, permit⟩]
  | redirect {hop : Hop} {hops : List Hop} {call : OutboundCall} {location url : String} {permit : OutboundHttpPermit}
    (hchain : Redirects parser guard (hop :: hops))
    (hurl : OutboundHttpGuard.redirected parser hop.permit location = some url)
    (h : guard.authorizeRedirect parser call hop.permit location = .ok permit)
    : Redirects parser guard (⟨call, url, permit⟩ :: hop :: hops)

-- Every permit of a chain is declared, for the addresses its host was resolved to, all of them public unless others are
-- allowed; the budget runs down, and the chain is no longer than it.
structure WithinPolicy {U : Type} (parser : UrlParser U) (policy : OutboundHttpPolicy) (hops : List Hop) : Prop where
  declared : ∀ hop ∈ hops, ∃ parsed, Declared parser policy hop.url hop.permit parsed
  resolved : ∀ hop ∈ hops, ∀ address, address ∈ hop.permit.addresses ↔ address ∈ resolvedAddresses parser hop.call hop.url
  addresses : policy.allowPrivateNetworks = true
    ∨ ∀ hop ∈ hops, ∀ address ∈ hop.permit.addresses, PublicIp address.ip
  decreasing : hops.Pairwise (fun later earlier => later.permit.redirectsRemaining < earlier.permit.redirectsRemaining)
  bounded : hops.length ≤ policy.maxRedirects + 1

section Chains

variable {U : Type} {parser : UrlParser U} {guard : OutboundHttpGuard} {hops : List Hop}

structure Checked {U : Type} (parser : UrlParser U) (policy : OutboundHttpPolicy) (hop : Hop) : Prop where
  declared : ∃ parsed, Declared parser policy hop.url hop.permit parsed
  resolved : ∀ address, address ∈ hop.permit.addresses ↔ address ∈ resolvedAddresses parser hop.call hop.url
  addresses : policy.allowPrivateNetworks = true ∨ ∀ address ∈ hop.permit.addresses, isPublicIp address.ip = true

theorem redirects_checked (hbuilt : OutboundHttpPolicy.Built parser guard.policy) (h : Redirects parser guard hops)
    : (∀ hop ∈ hops, Checked parser guard.policy hop)
      ∧ hops.Pairwise (fun later earlier => later.permit.redirectsRemaining < earlier.permit.redirectsRemaining)
      ∧ ∀ hop ∈ hops.head?, hop.permit.redirectsRemaining + hops.length = guard.policy.maxRedirects + 1 := by
  induction h with
  | first h =>
    obtain ⟨hdeclared, hremaining, hresolved, hpublic⟩ := authorizeInner_ok hbuilt h
    refine ⟨?_, List.pairwise_singleton _ _, ?_⟩
    . intro hop hmem
      rw [List.mem_singleton.mp hmem]
      exact ⟨hdeclared, hresolved, hpublic⟩
    . intro hop hhead
      cases hhead
      rw [hremaining]
      rfl
  | @redirect hop hops call location url permit hchain hurl h ih =>
    obtain ⟨hchecked, hdecreasing, hlength⟩ := ih
    unfold OutboundHttpGuard.authorizeRedirect at h
    split at h
    . cases h
    . split at h
      . cases h
      . next hbudget =>
        rw [hurl] at h
        obtain ⟨hdeclared, hremaining, hresolved, hpublic⟩ := authorizeInner_ok hbuilt h
        have hless : permit.redirectsRemaining < hop.permit.redirectsRemaining := by omega
        refine ⟨?_, ?_, ?_⟩
        . intro other hmem
          cases List.mem_cons.mp hmem with
          | inl hsame =>
            rw [hsame]
            exact ⟨hdeclared, hresolved, hpublic⟩
          | inr hmem => exact hchecked other hmem
        . apply List.Pairwise.cons _ hdecreasing
          intro earlier hmem
          cases List.mem_cons.mp hmem with
          | inl hsame =>
            rw [hsame]
            exact hless
          | inr hmem => exact hless.trans ((List.pairwise_cons.mp hdecreasing).1 earlier hmem)
        . intro other hhead
          cases hhead
          have hbefore := hlength hop rfl
          simp only [List.length_cons] at hbefore ⊢
          omega

theorem redirects_ne_nil (h : Redirects parser guard hops) : ∃ hop, hop ∈ hops.head? := by
  cases h with
  | first h => exact ⟨_, rfl⟩
  | redirect hchain hurl h => exact ⟨_, rfl⟩

theorem redirects_within_policy (hbuilt : OutboundHttpPolicy.Built parser guard.policy) (h : Redirects parser guard hops)
    : WithinPolicy parser guard.policy hops
      ↔ guard.policy.allowPrivateNetworks = true
        ∨ ∀ hop ∈ hops, ∀ address ∈ resolvedAddresses parser hop.call hop.url, ¬ SlipsThrough address.ip := by
  obtain ⟨hchecked, hdecreasing, hlength⟩ := redirects_checked hbuilt h
  constructor
  . intro hwithin
    apply hwithin.addresses.imp_right
    intro hpublic hop hmem address haddress
    have hpermitted := ((hchecked hop hmem).resolved address).mpr haddress
    exact ((publicIp_iff address.ip).mp (hpublic hop hmem address hpermitted)).2
  . intro hslips
    obtain ⟨last, hlast⟩ := redirects_ne_nil h
    have hbound := hlength last hlast
    refine ⟨fun hop hmem => (hchecked hop hmem).declared, fun hop hmem => (hchecked hop hmem).resolved, ?_, hdecreasing,
      by omega⟩
    cases hallow : guard.policy.allowPrivateNetworks with
    | true => exact .inl rfl
    | false =>
      apply Or.inr
      intro hop hmem address haddress
      have hpublic := (hchecked hop hmem).addresses.resolve_left (Bool.eq_false_iff.mp hallow) address haddress
      have hnot := hslips.resolve_left (Bool.eq_false_iff.mp hallow) hop hmem address
        (((hchecked hop hmem).resolved address).mp haddress)
      exact (publicIp_iff address.ip).mpr ⟨hpublic, hnot⟩

end Chains

def sampleUrls : UrlParser String where
  parse url := if url = "https://example.com/" ∨ url = "https://example.com/next" then some url else none
  join _ location := if location = "/next" then some "https://example.com/next" else none
  parseHost host := if host = "example.com" then some (.domain host) else none
  asStr url := url
  username _ := ""
  password _ := none
  fragment _ := none
  scheme _ := "https"
  host _ := some (.domain "example.com")
  portOrKnownDefault _ := some 443
  path url := if url = "https://example.com/" then "/" else "/next"

def sampleFetch : OutboundHttpPolicy :=
  ⟨"fetch", 1, .ofList ["example.com"], .ofList [443], .ofList ["/"], false, false, 5 * nanosPerSecond, 3,
    8 * 1024 * 1024, 16⟩

theorem sampleFetch_built : OutboundHttpPolicy.Built sampleUrls sampleFetch := by
  have hnew : OutboundHttpPolicy.new "fetch" 1 = .ok { sampleFetch with allowedHosts := .empty } := rfl
  have hhost : OutboundHttpPolicy.allowHost sampleUrls { sampleFetch with allowedHosts := .empty } "example.com"
      = .ok sampleFetch := rfl
  exact .host (.new hnew) hhost

def sampleGuard : OutboundHttpGuard := ⟨sampleFetch, by decide⟩

def sampleLookup (addresses : List SocketAddr) : OutboundCall := ⟨false, false, 0, nanosPerSecond, .answered (.ok addresses)⟩

def sampleLoopback : BitVec 128 := Ipv6Addr.ofSegments [0x2002, 0x7f00, 1, 0, 0, 0, 0, 0]

def samplePermit (url : String) (addresses : List SocketAddr) (remaining : Nat) : OutboundHttpPermit :=
  ⟨"fetch", 1, url, "example.com", addresses, nanosPerSecond, remaining, 8 * 1024 * 1024⟩

-- The check refuses the loopback address as the mapped address, and permits it as the address of a 6to4 site.
theorem sixToFour_loopback_is_permitted
    : sampleGuard.authorize sampleUrls (sampleLookup [⟨.v6 (Ipv6Addr.ofSegments [0, 0, 0, 0, 0, 0xffff, 0x7f00, 1]), 443⟩])
        "https://example.com/" = .error .privateAddressRejected
      ∧ Redirects sampleUrls sampleGuard [⟨sampleLookup [⟨.v6 sampleLoopback, 443⟩], "https://example.com/",
        samplePermit "https://example.com/" [⟨.v6 sampleLoopback, 443⟩] 3⟩]
      ∧ ¬ WithinPolicy sampleUrls sampleGuard.policy [⟨sampleLookup [⟨.v6 sampleLoopback, 443⟩], "https://example.com/",
        samplePermit "https://example.com/" [⟨.v6 sampleLoopback, 443⟩] 3⟩] := by
  refine ⟨by decide, .first (by decide), ?_⟩
  intro hwithin
  have hpublic := hwithin.addresses.resolve_left Bool.false_ne_true _ (List.mem_singleton_self _) ⟨.v6 sampleLoopback, 443⟩
    (List.mem_singleton_self _)
  have hinner : Ipv6Addr.embedded sampleLoopback = some (Ipv4Addr.ofOctets 127 0 0 1) := by
    decide
  have hloopback : ¬ PublicIpv4 (Ipv4Addr.ofOctets 127 0 0 1) := by
    rw [← isPublicIpv4_iff]
    decide
  exact hloopback (hpublic.2 _ hinner)

def sampleSite : List SocketAddr := [⟨.v4 (Ipv4Addr.ofOctets 93 184 216 34), 443⟩]

theorem redirects_within_policy_sample
    : WithinPolicy sampleUrls sampleGuard.policy
      [⟨sampleLookup sampleSite, "https://example.com/next", samplePermit "https://example.com/next" sampleSite 2⟩,
        ⟨sampleLookup sampleSite, "https://example.com/", samplePermit "https://example.com/" sampleSite 3⟩] := by
  have hfirst : Redirects sampleUrls sampleGuard
      [⟨sampleLookup sampleSite, "https://example.com/", samplePermit "https://example.com/" sampleSite 3⟩] :=
    .first (by decide)
  have hchain : Redirects sampleUrls sampleGuard
      [⟨sampleLookup sampleSite, "https://example.com/next", samplePermit "https://example.com/next" sampleSite 2⟩,
        ⟨sampleLookup sampleSite, "https://example.com/", samplePermit "https://example.com/" sampleSite 3⟩] :=
    @Redirects.redirect _ _ _ _ _ _ "/next" _ _ hfirst (by decide) (by decide)
  apply (redirects_within_policy sampleFetch_built hchain).mpr
  apply Or.inr
  intro hop hmem address haddress
  have hsite : resolvedAddresses sampleUrls hop.call hop.url = sampleSite := by
    simp only [List.mem_cons, List.not_mem_nil, or_false] at hmem
    cases hmem with
    | inl hsame =>
      rw [hsame]
      rfl
    | inr hsame =>
      rw [hsame]
      rfl
  rw [hsite] at haddress
  rw [List.mem_singleton.mp haddress]
  exact not_false

end Data

end Pliego
