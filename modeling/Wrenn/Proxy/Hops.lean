import Wrenn.Lib.Percent

/-!
# The two hops of the sandbox proxy

A request to the subdomain of a port goes to the host agent under `/proxy/{id}/{port}`, and from there to the process
without it.  On both hops the path is decoded, rewritten and encoded again; `net/url` keeps the text of a path beside
its decoded form only if it is not the default encoding, and uses it only as long as it is an encoding of the path.
A `Location` header takes the opposite way.

* `proxy_transparent_iff`: a path arrives as it was sent exactly if it is in the default encoding, and a header comes
  back as it should exactly if it does not name the target, or does so without a fragment and with a path that
  `net/url` leaves as it is;
* `slash_decoded`: an encoded slash arrives as a slash, and a fragment is lost.
-/

namespace Wrenn.Proxy.Hops

open Lib.Percent

/-! ### Addresses -/

def ascii (s : String) : Text := s.toList.map fun c => UInt8.ofNat c.toNat

def slash : UInt8 := 47

def letter (c : UInt8) : Bool := (97 ≤ c && c ≤ 122) || (65 ≤ c && c ≤ 90)

def digit (c : UInt8) : Bool := 48 ≤ c && c ≤ 57

/-- `shouldEscape` in a path: `?` is the only reserved byte that is. -/
def shouldEscape (c : UInt8) : Bool := !(letter c || digit c || (ascii "-_.~$&+,/:;=@").contains c)

/-- `validEncoded` -/
def validEncoded (s : Text) : Bool := s.all fun c => !shouldEscape c || (ascii "!'()*[]%").contains c

structure URL where
  path : Text
  /-- the text of the path, if it is not the default encoding -/
  rawPath : Text
  /-- without a `?`, none -/
  query : Option Text
  deriving DecidableEq

def setPath (p : Text) (query : Option Text) : Option URL :=
  (decode p).map fun d => ⟨d, if encode shouldEscape d = p then [] else p, query⟩

def URL.escapedPath (u : URL) : Text :=
  if u.rawPath ≠ [] ∧ validEncoded u.rawPath = true ∧ decode u.rawPath = some u.path then u.rawPath
  else if u.path = ascii "*" then ascii "*"
  else encode shouldEscape u.path

def suffixText (mark : UInt8) : Option Text → Text
  | none => []
  | some q => mark :: q

def URL.requestURI (u : URL) : Text :=
  (if u.escapedPath = [] then [slash] else u.escapedPath) ++ suffixText 63 u.query

/-- `strings.Cut` at the first `c` -/
def cut (c : UInt8) (s : Text) : Text × Option Text :=
  (s.takeWhile (· != c), match s.dropWhile (· != c) with
    | [] => none
    | _ :: rest => some rest)

def ctl (c : UInt8) : Bool := c < 32 || c == 127

/-- `ParseRequestURI` of a target in origin form -/
def parseRequestURI (t : Text) : Option URL :=
  if t.any ctl || t.head? != some slash then none
  else setPath (cut 63 t).1 (cut 63 t).2

/-! ### Requests -/

/-- `strconv.Atoi` of digits -/
def atoi (p : Text) : Option ℕ :=
  if p = [] ∨ p.any (fun c => !digit c) then none else some (p.foldl (fun n c => 10 * n + (c.toNat - 48)) 0)

def validPort (p : Text) : Bool := (atoi p).any fun n => 1 ≤ n && n ≤ 65535

/-- A byte of an id or a port as `sandboxHostPattern` admits them. -/
def plain (c : UInt8) : Bool := (97 ≤ c && c ≤ 122) || digit c || c == 45

/-- What the host name of a request says. -/
structure Route where
  id : Text
  port : Text
  id_plain : ∀ c ∈ id, plain c = true
  port_plain : ∀ c ∈ port, plain c = true

def trimPrefix (p s : Text) : Text := if p.isPrefixOf s then s.drop p.length else s

def proxyPath (id port : Text) : Text := ascii "/proxy/" ++ (id ++ slash :: port)

/-- `SandboxProxyWrapper.ServeHTTP`: the target of the request to the host agent -/
def toAgent (r : Route) (t : Text) : Option Text :=
  match parseRequestURI t with
  | none => none
  | some u =>
    if validPort r.port then some ({ u with path := proxyPath r.id r.port ++ u.path } : URL).requestURI
    else none

/-- `cleanPath` leaves the path: the mux redirects all others. -/
def clean (p : Text) : Bool :=
  (p.splitOn slash).tail.dropLast.all (fun s => !s.isEmpty) &&
    (p.splitOn slash).tail.all fun s => s != ascii "." && s != ascii ".."

/-- `ProxyHandler.ServeHTTP` and the director of `getOrCreateProxy`: the target of the request to the process -/
def toProcess (t : Text) : Option Text :=
  match parseRequestURI t with
  | none => none
  | some u =>
    if !clean u.escapedPath || !(ascii "/proxy/").isPrefixOf u.path then none
    else
      match cut slash (trimPrefix (ascii "/proxy/") u.path) with
      | (_, none) => none
      | (id, some rest) =>
        if !validPort (cut slash rest).1 then none
        else
          let remainder := trimPrefix [slash] (trimPrefix (proxyPath id (cut slash rest).1) u.path)
          some ({ u with path := slash :: remainder } : URL).requestURI

/-- What the process receives of a request that both hops accept. -/
def proxied (r : Route) (t : Text) : Option Text := (toAgent r t).bind toProcess

/-! ### Redirects -/

/-- An absolute URL. -/
structure Absolute where
  host : Text
  path : Text
  query : Option Text
  fragment : Option Text
  deriving DecidableEq

def schemeByte (c : UInt8) : Bool := letter c || digit c || (ascii "+-.").contains c

/-- The host after the last `@`. -/
def hostOf (authority : Text) : Text := (authority.reverse.takeWhile (· != 64)).reverse

/-- The parts that `url.Parse` finds in a text with a scheme and an authority. -/
def parseAbsolute (s : Text) : Option Absolute :=
  let u := (cut 35 s).1
  match u.dropWhile schemeByte with
  | 58 :: rest =>
    if !(u.head?.any letter) then none
    else match (cut 63 rest).1 with
      | 47 :: 47 :: auth =>
        some ⟨hostOf (auth.takeWhile (· != slash)), auth.dropWhile (· != slash), (cut 63 rest).2, (cut 35 s).2⟩
      | _ => none
  | _ => none

section Location

-- `valid`: whether `url.Parse` accepts a text at all
variable (valid : Text → Bool) (target : Text)

/-- The header is an absolute URL of the target. -/
def targeted (loc : Text) : Option (Absolute × URL) :=
  if loc.head? = some slash ∨ valid loc = false then none
  else match parseAbsolute loc with
    | none => none
    | some a => if a.host = target then (setPath a.path a.query).map (a, ·) else none

/-- `ModifyResponse` of the host agent -/
def fromProcess (r : Route) (loc : Text) : Text :=
  if loc.head? = some slash then proxyPath r.id r.port ++ loc
  else match targeted valid target loc with
    | some (_, u) => proxyPath r.id r.port ++ u.requestURI
    | none => loc

/-- `ModifyResponse` of the control plane -/
def fromAgent (r : Route) (loc : Text) : Text := trimPrefix (proxyPath r.id r.port) loc

def returned (r : Route) (loc : Text) : Text := fromAgent r (fromProcess valid target r loc)

/-- The header as the client ought to get it. -/
def expected (loc : Text) : Text :=
  match targeted valid target loc with
  | some (a, _) => a.path ++ (suffixText 63 a.query ++ suffixText 35 a.fragment)
  | none => loc

end Location

/-! ### Paths -/

variable {r : Route} {t s d : Text} {c : UInt8}

theorem cut_join (c : UInt8) (s : Text) : (cut c s).1 ++ suffixText c (cut c s).2 = s := by
  have hs : s.takeWhile (· != c) ++ s.dropWhile (· != c) = s := List.takeWhile_append_dropWhile
  unfold cut
  cases hd : s.dropWhile (· != c) with
  | nil =>
    rw [hd] at hs
    exact hs
  | cons b rest =>
    have hb : b = c := by
      have := List.head?_dropWhile_not (· != c) s
      rw [hd] at this
      simpa using this
    rw [hd, hb] at hs
    exact hs

/-- A text without the byte comes before the cut. -/
theorem cut_append (h : c ∉ s) : cut c (s ++ t) = (s ++ (cut c t).1, (cut c t).2) := by
  have hne : ∀ b ∈ s, (b != c) = true := fun b hb => bne_iff_ne.mpr fun he => h (he ▸ hb)
  unfold cut
  rw [List.takeWhile_append_of_pos hne, List.dropWhile_append_of_pos hne]

theorem cut_cons_self : cut c (c :: s) = ([], some s) := by
  unfold cut
  rw [List.takeWhile_cons_of_neg (by simp), List.dropWhile_cons_of_neg (by simp)]

theorem trimPrefix_append : trimPrefix s (s ++ t) = t := by
  rw [trimPrefix, if_pos (List.isPrefixOf_iff_prefix.mpr (List.prefix_append s t)), List.drop_left]

theorem plain_spec (hc : plain c = true) : shouldEscape c = false ∧ ctl c = false ∧ c ≠ slash ∧ c ≠ 63 := by
  have hall : ∀ n < 256, plain (UInt8.ofNat n) = true → shouldEscape (UInt8.ofNat n) = false ∧
      ctl (UInt8.ofNat n) = false ∧ UInt8.ofNat n ≠ slash ∧ UInt8.ofNat n ≠ 63 := by
    decide +kernel
  have hc' := hall c.toNat c.toNat_lt
  rw [UInt8.ofNat_toNat] at hc'
  exact hc' hc

/-- The bytes that the first hop puts in front. -/
theorem mem_proxyPath (hc : c ∈ proxyPath r.id r.port) : shouldEscape c = false ∧ ctl c = false ∧ c ≠ 63 := by
  have hascii : ∀ c ∈ slash :: ascii "/proxy/", shouldEscape c = false ∧ ctl c = false ∧ c ≠ 63 := by decide +kernel
  have hplain : plain c = true → shouldEscape c = false ∧ ctl c = false ∧ c ≠ 63 :=
    fun h => ⟨(plain_spec h).1, (plain_spec h).2.1, (plain_spec h).2.2.2⟩
  rcases List.mem_append.mp hc with h | h
  · exact hascii c (List.mem_cons_of_mem _ h)
  rcases List.mem_append.mp h with h | h
  · exact hplain (r.id_plain c h)
  rcases List.mem_cons.mp h with rfl | h
  · exact hascii slash List.mem_cons_self
  · exact hplain (r.port_plain c h)

/-- The path of a target is the default encoding of what it decodes to. -/
def Canonical (t : Text) : Prop := ∀ d, decode (cut 63 t).1 = some d → encode shouldEscape d = (cut 63 t).1

/-- A target in the default encoding, parsed and written again. -/
theorem parse_canonical {u : URL} (hcan : Canonical t) (h : parseRequestURI t = some u) :
    ∃ d, u = ⟨slash :: d, [], (cut 63 t).2⟩ ∧ encode shouldEscape (slash :: d) = (cut 63 t).1 ∧
      t.any ctl = false := by
  unfold parseRequestURI setPath at h
  split_ifs at h with hok
  simp only [Bool.or_eq_true, not_or, Bool.not_eq_true] at hok
  obtain ⟨d, hd, rfl⟩ := Option.map_eq_some_iff.mp h
  have henc := hcan d hd
  have hhead : t.head? = some slash := by simpa using hok.2
  obtain ⟨t', rfl⟩ : ∃ t', t = slash :: t' := by
    cases t with
    | nil => cases hhead
    | cons b t' => exact ⟨t', by rw [Option.some.inj hhead]⟩
  have hcut : (cut 63 (slash :: t')).1 = slash :: (cut 63 t').1 :=
    congrArg Prod.fst (cut_append (s := [slash]) (by decide))
  rw [hcut, decode_cons_ne (by decide)] at hd
  obtain ⟨d', -, rfl⟩ := Option.map_eq_some_iff.mp hd
  exact ⟨d', by rw [if_pos henc], henc, hok.1⟩

/-- Such a URL is written as it was. -/
theorem requestURI_canonical {q : Option Text} (hne : d ≠ []) (hstar : d ≠ ascii "*") :
    (URL.mk d [] q).requestURI = encode shouldEscape d ++ suffixText 63 q := by
  have henc : encode shouldEscape d ≠ [] := by
    obtain ⟨b, d', rfl⟩ := List.exists_cons_of_ne_nil hne
    rw [encode, List.flatMap_cons, encodeByte]
    split_ifs <;> exact List.cons_ne_nil _ _
  have hp : (URL.mk d [] q).escapedPath = encode shouldEscape d := by
    rw [URL.escapedPath, if_neg fun h => h.1 rfl, if_neg hstar]
  rw [URL.requestURI, hp, if_neg henc]

theorem slash_ne_star : slash :: d ≠ ascii "*" := by
  intro he
  have hb : some slash = some (42 : UInt8) := congrArg List.head? he
  exact absurd hb (by decide)

theorem encode_proxyPath : encode shouldEscape (proxyPath r.id r.port ++ d) =
    proxyPath r.id r.port ++ encode shouldEscape d := by
  rw [encode_append, encode_plain fun c hc => (mem_proxyPath hc).1]

theorem mem_encode (hc : c ∈ encode shouldEscape d) : ctl c = false ∧ c ≠ 63 ∧ c ≠ 35 := by
  have hhex : ∀ n < 16, ctl (hexDigit n) = false ∧ hexDigit n ≠ 63 ∧ hexDigit n ≠ 35 := by decide +kernel
  have hall : ∀ n < 256, shouldEscape (UInt8.ofNat n) = false →
      ctl (UInt8.ofNat n) = false ∧ UInt8.ofNat n ≠ 63 ∧ UInt8.ofNat n ≠ 35 := by decide +kernel
  obtain ⟨b, -, hb⟩ := List.mem_flatMap.mp hc
  have hlt := b.toNat_lt
  unfold encodeByte at hb
  split_ifs at hb with hesc
  · simp only [List.mem_cons, List.not_mem_nil, or_false] at hb
    rcases hb with rfl | rfl | rfl
    · decide
    · exact hhex _ (by omega)
    · exact hhex _ (by omega)
  · cases List.mem_singleton.mp hb
    have hc' := hall c.toNat hlt
    rw [UInt8.ofNat_toNat] at hc'
    exact hc' (by simpa using hesc)

/-- The target with its path in the default encoding. -/
def recoded (t d : Text) : Text := encode shouldEscape d ++ suffixText 63 (cut 63 t).2

theorem cut_recoded : cut 63 (recoded t d) = (encode shouldEscape d, (cut 63 t).2) := by
  rw [recoded, cut_append fun h => (mem_encode h).2.1 rfl]
  cases (cut 63 t).2 with
  | none => rw [suffixText, cut, List.takeWhile_nil, List.dropWhile_nil, List.append_nil]
  | some q => rw [suffixText, cut_cons_self, List.append_nil]

theorem canonical_recoded : Canonical (recoded t d) := by
  intro d' hd'
  rw [cut_recoded] at hd' ⊢
  rw [decode_encode (by decide)] at hd'
  rw [Option.some.inj hd']

theorem recoded_eq_iff (h : decode (cut 63 t).1 = some d) : recoded t d = t ↔ Canonical t := by
  constructor
  · intro he d' hd'
    rw [h] at hd'
    cases hd'
    simpa only [cut_recoded] using congrArg (fun x => (cut 63 x).1) he
  · intro hcan
    rw [recoded, hcan d h, cut_join]

theorem decode_rooted {p : Text} (hp : p.head? = some slash) (h : decode p = some d) : ∃ d', d = slash :: d' := by
  obtain ⟨p', rfl⟩ : ∃ p', p = slash :: p' := List.head?_eq_some_iff.mp hp
  rw [decode_cons_ne (by decide)] at h
  obtain ⟨d', -, rfl⟩ := Option.map_eq_some_iff.mp h
  exact ⟨d', rfl⟩

/-- **The first hop** puts the address of the sandbox in front, and encodes the path anew. -/
theorem toAgent_eq {t' : Text} (h : toAgent r t = some t') :
    ∃ d u, decode (cut 63 t).1 = some d ∧ parseRequestURI (recoded t d) = some u ∧
      t' = proxyPath r.id r.port ++ recoded t d := by
  unfold toAgent at h
  split at h
  · cases h
  rename_i u hu
  unfold parseRequestURI setPath at hu
  split_ifs at hu with hok
  simp only [Bool.or_eq_true, not_or, Bool.not_eq_true, bne_eq_false_iff_eq] at hok
  obtain ⟨d, hd, rfl⟩ := Option.map_eq_some_iff.mp hu
  obtain ⟨t₀, rfl⟩ : ∃ t₀, t = slash :: t₀ := List.head?_eq_some_iff.mp hok.2
  have hroot : (cut 63 (slash :: t₀)).1.head? = some slash := by
    rw [← List.singleton_append, cut_append (by decide)]
    rfl
  obtain ⟨d', rfl⟩ := decode_rooted hroot hd
  refine ⟨slash :: d', ⟨slash :: d', [], (cut 63 (slash :: t₀)).2⟩, hd, ?_, ?_⟩
  · have hctl : (recoded (slash :: t₀) (slash :: d')).any ctl = false := by
      have hjoin := hok.1
      rw [← cut_join 63 (slash :: t₀), List.any_append, Bool.or_eq_false_iff] at hjoin
      rw [recoded, List.any_append, hjoin.2, Bool.or_false, List.any_eq_false]
      exact fun c hc => by simp [(mem_encode hc).1]
    have hhead : (recoded (slash :: t₀) (slash :: d')).head? = some slash := rfl
    unfold parseRequestURI setPath
    rw [if_neg (by rw [hctl, hhead]; decide), cut_recoded, decode_encode (by decide)]
    simp only [Option.map_some, if_true]
  · split at h <;> cases h
    have henc : encode shouldEscape (slash :: d') ≠ [] := List.cons_ne_nil _ _
    have hlong : decode (cut 63 (slash :: t₀)).1 ≠ some (proxyPath r.id r.port ++ slash :: d') := by
      rw [hd]
      intro he
      have hlen := congrArg List.length (Option.some.inj he)
      simp only [proxyPath, List.length_append, List.length_cons] at hlen
      omega
    have hstar : proxyPath r.id r.port ++ slash :: d' ≠ ascii "*" := slash_ne_star
    have hpath : ∀ raw q, (raw = [] ∨ raw = (cut 63 (slash :: t₀)).1) →
        (URL.mk (proxyPath r.id r.port ++ slash :: d') raw q).escapedPath =
          proxyPath r.id r.port ++ encode shouldEscape (slash :: d') := by
      intro raw q hraw
      rw [URL.escapedPath, if_neg, if_neg hstar, encode_proxyPath]
      rintro ⟨hne, -, hdec⟩
      exact hraw.elim hne fun he => hlong (he ▸ hdec)
    rw [URL.requestURI, hpath _ _ (by dsimp only; split_ifs <;> simp),
      if_neg (List.append_ne_nil_of_right_ne_nil _ henc), List.append_assoc]
    rfl

theorem parse_agent {u : URL} (hcan : Canonical t) (h : parseRequestURI t = some u) :
    parseRequestURI (proxyPath r.id r.port ++ t) = some { u with path := proxyPath r.id r.port ++ u.path } := by
  obtain ⟨d, rfl, henc, hctl⟩ := parse_canonical hcan h
  have hany : (proxyPath r.id r.port ++ t).any ctl = false := by
    rw [List.any_append, hctl, Bool.or_false, List.any_eq_false]
    intro c hc
    rw [(mem_proxyPath hc).2.1]
    exact Bool.false_ne_true
  have hcut := cut_append (s := proxyPath r.id r.port) (t := t) fun h => (mem_proxyPath h).2.2 rfl
  have henc' : encode shouldEscape (proxyPath r.id r.port ++ slash :: d) = proxyPath r.id r.port ++ (cut 63 t).1 := by
    rw [encode_proxyPath, henc]
  have hhead : (proxyPath r.id r.port ++ t).head? = some slash := rfl
  unfold parseRequestURI setPath
  rw [if_neg (by rw [hany, hhead]; decide), hcut, ← henc', decode_encode (by decide)]
  simp only [Option.map_some, if_true]

/-- **The second hop** takes it away. -/
theorem toProcess_canonical {u : URL} {out : Text} (hcan : Canonical t) (hu : parseRequestURI t = some u)
    (h : toProcess (proxyPath r.id r.port ++ t) = some out) : out = t := by
  unfold toProcess at h
  rw [parse_agent hcan hu] at h
  obtain ⟨d, rfl, henc, -⟩ := parse_canonical hcan hu
  dsimp only at h
  have hassoc : proxyPath r.id r.port ++ slash :: d = ascii "/proxy/" ++ (r.id ++ slash :: (r.port ++ slash :: d)) := by
    simp only [proxyPath, List.append_assoc, List.cons_append]
  have hid : cut slash (r.id ++ slash :: (r.port ++ slash :: d)) = (r.id, some (r.port ++ slash :: d)) := by
    rw [cut_append fun h => (plain_spec (r.id_plain _ h)).2.2.1 rfl, cut_cons_self, List.append_nil]
  have hport : (cut slash (r.port ++ slash :: d)).1 = r.port := by
    rw [cut_append fun h => (plain_spec (r.port_plain _ h)).2.2.1 rfl, cut_cons_self, List.append_nil]
  have htrim : trimPrefix (ascii "/proxy/") (proxyPath r.id r.port ++ slash :: d) =
      r.id ++ slash :: (r.port ++ slash :: d) := by
    rw [hassoc, trimPrefix_append]
  rw [htrim, hid] at h
  dsimp only at h
  rw [hport, trimPrefix_append, ← List.singleton_append, trimPrefix_append] at h
  split_ifs at h
  cases h
  exact (requestURI_canonical (List.cons_ne_nil _ _) slash_ne_star).trans (by rw [henc, cut_join])

theorem proxied_iff {out : Text} (h : proxied r t = some out) : out = t ↔ Canonical t := by
  obtain ⟨t', ha, hp⟩ := Option.bind_eq_some_iff.mp h
  obtain ⟨d, u, hd, hu, rfl⟩ := toAgent_eq ha
  rw [toProcess_canonical canonical_recoded hu hp]
  exact recoded_eq_iff hd

/-! ### Headers -/

variable {valid : Text → Bool} {target loc : Text}

/-- Nothing of a text that does not begin with a slash is cut off. -/
theorem fromAgent_of_not_rooted (h : loc.head? ≠ some slash) : fromAgent r loc = loc := by
  refine if_neg fun hp => h ?_
  obtain ⟨rest, rfl⟩ := List.isPrefixOf_iff_prefix.mp hp
  rfl

theorem returned_other (h : targeted valid target loc = none) : returned valid target r loc = loc := by
  unfold returned fromProcess
  split_ifs with hroot
  · exact trimPrefix_append
  · rw [h]
    exact fromAgent_of_not_rooted hroot

/-- `net/url` writes the path of the URL, which is not empty, as it stands in the header. -/
def Kept (a : Absolute) : Prop :=
  a.path.head? = some slash ∧ a.fragment = none ∧
    (validEncoded a.path = true ∨ ∀ d, decode a.path = some d → encode shouldEscape d = a.path)

theorem mem_cut {c b : UInt8} (h : b ∈ (cut c s).1 ∨ ∃ q ∈ (cut c s).2, b ∈ q) : b ∈ s := by
  rw [← cut_join c s, List.mem_append]
  refine h.imp id ?_
  rintro ⟨q, hq, hb⟩
  rw [Option.mem_def.mp hq]
  exact List.mem_cons_of_mem _ hb

theorem not_mem_cut (c : UInt8) (s : Text) : c ∉ (cut c s).1 := fun h => by
  have hne := List.all_eq_true.mp List.all_takeWhile c h
  simp at hne

/-- The path of an absolute URL is empty or rooted, and the fragment has been cut off. -/
theorem parseAbsolute_spec {a : Absolute} (h : parseAbsolute s = some a) :
    (a.path = [] ∨ a.path.head? = some slash) ∧ 35 ∉ a.path ∧ ∀ q ∈ a.query, 35 ∉ q := by
  unfold parseAbsolute at h
  dsimp only at h
  split at h
  next rest hrest =>
    have hsub : 35 ∉ rest := fun hm => not_mem_cut 35 s
      ((List.dropWhile_sublist schemeByte).mem (hrest ▸ List.mem_cons_of_mem _ hm))
    split_ifs at h
    split at h
    next auth hauth =>
      cases h
      refine ⟨?_, fun hm => hsub ?_, fun q hq hm => hsub (mem_cut (.inr ⟨q, hq, hm⟩))⟩
      · have hhead := List.head?_dropWhile_not (· != slash) auth
        dsimp only
        cases hd : auth.dropWhile (· != slash) with
        | nil => exact .inl rfl
        | cons b p =>
          rw [hd] at hhead
          exact .inr (congrArg some (by simpa using hhead))
      · refine mem_cut (c := 63) (.inl ?_)
        rw [hauth]
        exact List.mem_cons_of_mem _ (List.mem_cons_of_mem _ ((List.dropWhile_sublist _).mem hm))
    · cases h
  · cases h

theorem targeted_spec {a : Absolute} {u : URL} (h : targeted valid target loc = some (a, u)) :
    loc.head? ≠ some slash ∧ setPath a.path a.query = some u ∧ (a.path = [] ∨ a.path.head? = some slash) ∧
      35 ∉ a.path ∧ ∀ q ∈ a.query, 35 ∉ q := by
  unfold targeted at h
  split_ifs at h with hroot
  split at h
  · cases h
  rename_i a' ha
  split_ifs at h
  obtain ⟨u', hu, he⟩ := Option.map_eq_some_iff.mp h
  cases he
  exact ⟨fun hh => hroot (.inl hh), hu, parseAbsolute_spec ha⟩

/-- The path that `net/url` writes for a path that begins with a slash. -/
theorem escapedPath_setPath {p : Text} {q : Option Text} {u : URL} (hp : p.head? = some slash)
    (h : setPath p q = some u) : u.query = q ∧ u.escapedPath ≠ [] ∧ (35 ∉ p → 35 ∉ u.escapedPath) ∧
      (u.escapedPath = p ↔ validEncoded p = true ∨ ∀ d, decode p = some d → encode shouldEscape d = p) := by
  obtain ⟨d, hd, rfl⟩ := Option.map_eq_some_iff.mp h
  obtain ⟨d', rfl⟩ := decode_rooted hp hd
  have hne : p ≠ [] := fun he => by rw [he] at hp; cases hp
  have hall : (∀ d, decode p = some d → encode shouldEscape d = p) ↔ encode shouldEscape (slash :: d') = p := by
    rw [hd]
    simp
  have henc : encode shouldEscape (slash :: d') ≠ [] := List.cons_ne_nil _ _
  rw [hall, URL.escapedPath, if_neg slash_ne_star]
  refine ⟨rfl, ?_, ?_, ?_⟩
  · split_ifs <;> simp_all
  · intro h35
    by_cases heq : encode shouldEscape (slash :: d') = p
    · rw [if_pos heq, if_neg fun hc => hc.1 rfl]
      exact fun hm => (mem_encode hm).2.2 rfl
    · rw [if_neg heq]
      split
      · exact h35
      · exact fun hm => (mem_encode hm).2.2 rfl
  · by_cases heq : encode shouldEscape (slash :: d') = p
    · simp [heq]
    · by_cases hv : validEncoded p = true <;> simp [heq, hv, hne, hd]

theorem returned_iff {a : Absolute} {u : URL} (h : targeted valid target loc = some (a, u)) :
    returned valid target r loc = a.path ++ (suffixText 63 a.query ++ suffixText 35 a.fragment) ↔ Kept a := by
  obtain ⟨hroot, hset, hhead, hpath, hquery⟩ := targeted_spec h
  have hret : returned valid target r loc = u.requestURI := by
    rw [returned, fromProcess, if_neg hroot, h]
    exact trimPrefix_append
  rw [hret]
  rcases hhead with hnil | hhead
  · -- the empty path becomes a slash
    obtain ⟨d, hd, rfl⟩ := Option.map_eq_some_iff.mp hset
    rw [hnil] at hd
    cases hd
    rw [hnil]
    refine iff_of_false (fun he => ?_) fun hk => ?_
    · have hslash : slash :: suffixText 63 a.query = suffixText 63 a.query ++ suffixText 35 a.fragment := he
      have hb := congrArg List.head? hslash
      cases hq : a.query <;> cases hf : a.fragment <;> rw [hq, hf] at hb <;> simp [suffixText, slash] at hb
    · rw [Kept, hnil] at hk
      cases hk.1
  · obtain ⟨hq, hne, h35, hkept⟩ := escapedPath_setPath hhead hset
    have h35 := h35 hpath
    rw [URL.requestURI, if_neg hne, hq, Kept, ← hkept, ← List.append_assoc]
    constructor
    · intro he
      cases hf : a.fragment with
      | none =>
        rw [hf, suffixText, List.append_nil] at he
        exact ⟨hhead, rfl, List.append_cancel_right he⟩
      | some f =>
        have hm : (35 : UInt8) ∈ u.escapedPath ++ suffixText 63 a.query := by
          rw [he, hf]
          exact List.mem_append_right _ List.mem_cons_self
        rcases List.mem_append.mp hm with hm | hm
        · exact absurd hm h35
        · cases haq : a.query with
          | none => rw [haq] at hm; cases hm
          | some q =>
            rw [haq] at hm
            exact absurd ((List.mem_cons.mp hm).resolve_left (by decide)) (hquery q haq)
    · rintro ⟨-, hf, he⟩
      rw [he, hf, suffixText, List.append_nil]

/-- **The proxy is transparent** exactly for targets in the default encoding, and for the headers that `net/url`
keeps. -/
theorem proxy_transparent_iff (r : Route) (valid : Text → Bool) (target : Text) :
    (∀ t out, proxied r t = some out → (out = t ↔ Canonical t)) ∧
      ∀ loc, returned valid target r loc = expected valid target loc ↔
        ∀ a u, targeted valid target loc = some (a, u) → Kept a := by
  refine ⟨fun t out h => proxied_iff h, fun loc => ?_⟩
  unfold expected
  cases h : targeted valid target loc with
  | none => exact iff_of_true (returned_other h) nofun
  | some x =>
    obtain ⟨a, u⟩ := x
    dsimp only
    rw [returned_iff h]
    simp

def route : Route := ⟨ascii "cl-1", ascii "80", by decide +kernel, by decide +kernel⟩

/-- An encoded slash is decoded on the way, and a redirect loses its fragment. -/
theorem slash_decoded : proxied route (ascii "/a%2Fb") = some (ascii "/a/b") ∧
    returned (fun _ => true) (ascii "10.11.0.2:80") route (ascii "http://10.11.0.2:80/x#top") = ascii "/x" ∧
    expected (fun _ => true) (ascii "10.11.0.2:80") (ascii "http://10.11.0.2:80/x#top") = ascii "/x#top" := by
  decide +kernel

end Wrenn.Proxy.Hops
