import KaChatIndexer.PushRegistry
import KaChatIndexer.UrlHosts

/-!
# The hosts of web push endpoints

A web subscription names the address that the service posts to. The registry cuts the host out of
that address by hand; the HTTP client reads it by the URL grammar.
-/
namespace KaChatIndexer.PushEndpoints
open ByteStrings KaText PushFields PushRegistry UrlHosts

/-- The host that an HTTP client finds in an `https` address. -/
def urlHost (r : HostReader) (url : Text) : Option Text :=
  (stripPrefix "https:".toList (clean url)).bind (readAddress r)

/-- `origin_of` -/
def originOf (endpoint : Text) : Option Text :=
  (stripPrefix "https://".toList endpoint).bind fun rest =>
    let host := rest.takeWhile fun c => !(c == '/' || c == '?' || c == '#')
    if host = [] then none else some ("https://".toList ++ host)

/-- `WebPushClient::send`: the host that the request goes to. -/
def sendHost (r : HostReader) (subscription : WebPushSubscription) : Option Text :=
  (originOf (trim subscription.endpoint)).bind fun _ => urlHost r (trim subscription.endpoint)

/-! ## The hosts of the push services -/

def pushHosts : List Text :=
  ["fcm.googleapis.com".toList, "updates.push.services.mozilla.com".toList]

def pushDomains : List Text :=
  ["push.apple.com".toList, "googleapis.com".toList, "notify.windows.com".toList]

/-- One of the hosts, or below one of the domains. -/
def AllowedHost (host : Text) : Prop :=
  host ∈ pushHosts ∨ ∃ domain ∈ pushDomains, '.' :: domain <:+ host

instance (host : Text) : Decidable (AllowedHost host) := inferInstanceAs (Decidable (_ ∨ _))

/-- What stands between the scheme and the path, the query or the fragment. -/
def shownAuthority (endpoint : Text) : Text :=
  ((stripPrefix "https://".toList endpoint).getD []).takeWhile fun c =>
    !(c == '/' || c == '?' || c == '#')

/-- The authority without the backslashes that it starts with. -/
def unslashed (endpoint : Text) : Text := (shownAuthority endpoint).dropWhile (· == '\\')

def beforeBackslash (endpoint : Text) : Text := (unslashed endpoint).takeWhile (· != '\\')

def shownHost (authority : Text) : Text := (afterLast '@' authority).takeWhile (· != ':')

theorem exists_ascii {c : Char} (h : c.toNat ≤ 0x7f) : ∃ n < 128, c = Char.ofNat n :=
  ⟨c.toNat, by omega, (Char.ofNat_toNat c).symm⟩

theorem toAsciiLowercase_eq (t : Text) : toAsciiLowercase t = t.map Char.toLower := by
  apply List.map_congr_left
  intro c hmem
  by_cases hc : c.toNat ≤ 0x7f
  · have hall : ∀ n < 128, (if 'A' ≤ Char.ofNat n ∧ Char.ofNat n ≤ 'Z' then
        Char.ofNat ((Char.ofNat n).toNat + 32) else Char.ofNat n) = (Char.ofNat n).toLower := by
      decide +kernel
    obtain ⟨n, hn, rfl⟩ := exists_ascii hc
    exact hall n hn
  · have hup : ¬('A' ≤ c ∧ c ≤ 'Z') := by
      rintro ⟨hlow, hhigh⟩
      have hhigh : c.toNat ≤ 0x5a := hhigh
      omega
    have hself : c.toLower = c := dif_neg hup
    rw [if_neg hup, hself]

theorem toLower_ascii {c d : Char} (h : c.toLower = d) (hd : isPlain d = true) :
    ∃ n < 128, c = Char.ofNat n :=
  exists_ascii (plain_range (plain_of_toLower (h ▸ hd))).1

theorem toLower_m {c : Char} (h : c.toLower = 'm') : isIpv6Char c = false ∧ c ≠ '[' ∧ c ≠ ']' := by
  have hall : ∀ n < 128, (Char.ofNat n).toLower = 'm' →
      isIpv6Char (Char.ofNat n) = false ∧ Char.ofNat n ≠ '[' ∧ Char.ofNat n ≠ ']' := by
    decide +kernel
  obtain ⟨n, hn, rfl⟩ := toLower_ascii h (by decide)
  exact hall n hn h

theorem toLower_dot {c : Char} (h : c.toLower = '.') : c = '.' := by
  have hall : ∀ n < 128, (Char.ofNat n).toLower = '.' → Char.ofNat n = '.' := by decide +kernel
  obtain ⟨n, hn, rfl⟩ := toLower_ascii h (by decide)
  exact hall n hn h

theorem endpointHostAllowed_iff {endpoint : Text} :
    endpointHostAllowed endpoint = true ↔
      startsWith "https://".toList endpoint = true ∧
        AllowedHost ((shownHost (shownAuthority endpoint)).map Char.toLower) := by
  unfold endpointHostAllowed startsWith shownHost shownAuthority
  cases stripPrefix "https://".toList endpoint with
  | none => simp
  | some rest =>
    simp only [splitOn_getLast, toAsciiLowercase_eq, endsWith, Option.getD_some, Option.isSome_some,
      true_and, AllowedHost, pushHosts, pushDomains]
    simp [or_assoc]

/-- Every name on the lists is of plain labels, the last of them no number. -/
theorem names_plain : ∀ name ∈ pushHosts ++ pushDomains,
    isName name = true ∧ 'm' ∈ name ∧ '\\' ∉ name := by decide

section
variable {r : HostReader}

/-- A host that ends at its first colon and passes the list is read as one of the list. -/
theorem readAuthority_allowed (hr : r.Lawful) {a host : Text} (ha : AllowedHost ((shownHost a).map Char.toLower))
    (h : readAuthority r a = some host) : AllowedHost host := by
  have hread {name : Text} (hname : name ∈ pushHosts ++ pushDomains)
      (hpart : name <:+: (shownHost a).map Char.toLower) : readHost r (shownHost a) = some host := by
    obtain ⟨c, hc, hm⟩ := List.mem_map.mp (hpart.mem (names_plain name hname).2.1)
    obtain ⟨hchar, hopen, hclose⟩ := toLower_m hm
    exact readAuthority_host hr hc hchar hopen hclose h
  rcases ha with hname | ⟨domain, hdomain, hsuffix⟩
  · have hmem := List.mem_append_left pushDomains hname
    have hhost := readHost_name hr (names_plain _ hmem).1 rfl (hread hmem (List.infix_rfl))
    exact .inl (hhost ▸ hname)
  · have hmem := List.mem_append_right pushHosts hdomain
    have hpart : domain <:+: (shownHost a).map Char.toLower :=
      ((List.suffix_cons _ _).trans hsuffix).isInfix
    obtain ⟨y, hy⟩ := hsuffix
    obtain ⟨x, t, hxt, hx, ht⟩ := List.map_eq_append_iff.mp hy.symm
    obtain ⟨c, t, rfl, hdot, htail⟩ := List.map_eq_cons_iff.mp ht
    obtain rfl := toLower_dot hdot
    have hlabels := hread hmem hpart
    rw [hxt] at hlabels
    exact .inr ⟨domain, hdomain, readHost_labels hr (names_plain _ hmem).1 htail hlabels⟩

end

/-! ## Leading backslashes -/

theorem allowedHost_append {b x : Text} (hb : ∀ c ∈ b, c = '\\') (h : AllowedHost (b ++ x)) :
    AllowedHost x := by
  have hnot {name : Text} (hname : name ∈ pushHosts ++ pushDomains) : '\\' ∉ name :=
    (names_plain name hname).2.2
  cases b with
  | nil => exact h
  | cons c b =>
    obtain rfl := hb c (by simp)
    rcases h with hname | ⟨domain, hdomain, y, hy⟩
    · exact absurd (by simp) (hnot (List.mem_append_left _ hname))
    · refine .inr ⟨domain, hdomain, ?_⟩
      rcases List.append_eq_append_iff.mp hy with ⟨a, ha, hx⟩ | ⟨a, ha, hx⟩
      · cases a with
        | nil => exact hx ▸ List.suffix_rfl
        | cons d a =>
          have hd : d = '\\' := hb d (ha ▸ by simp)
          have hmem : d ∈ '.' :: domain := hx ▸ by simp
          rw [hd] at hmem
          exact absurd ((List.mem_cons.mp hmem).resolve_left (by decide))
            (hnot (List.mem_append_right _ hdomain))
      · exact ⟨a, hx.symm⟩

/-- Backslashes in front of an authority change nothing about what its host may be. -/
theorem shownHost_append {b a : Text} (hb : ∀ c ∈ b, c = '\\')
    (h : AllowedHost ((shownHost (b ++ a)).map Char.toLower)) :
    AllowedHost ((shownHost a).map Char.toLower) := by
  have hlower : b.map Char.toLower = b := by
    conv_rhs => rw [← List.map_id b]
    exact List.map_congr_left fun c hc => by rw [hb c hc]; rfl
  by_cases hat : '@' ∈ a
  · rwa [shownHost, afterLast_append_mem hat] at h
  · have hnot : '@' ∉ b := fun hmem => absurd (hb _ hmem) (by decide)
    rw [shownHost, afterLast_append_not_mem hat, afterLast_self hnot,
      List.takeWhile_append_of_pos (fun c hc => by rw [hb c hc]; rfl), List.map_append, hlower] at h
    rw [shownHost, afterLast_self hat]
    exact allowedHost_append hb h

/-! ## What the client reads -/

theorem clean_endpoint {t : Text} (h : t.any isControlOrSpace = false) : clean t = t := by
  apply clean_self
  intro c hc
  have hchar := List.any_eq_false.mp h c hc
  simp only [isControlOrSpace, isControl, isWhitespace, Bool.or_eq_true, not_or, Bool.and_eq_true,
    decide_eq_true_eq, beq_iff_eq] at hchar
  simp only [isC0OrSpace, decide_eq_false_iff_not]
  omega

theorem stripPrefix_iff {pre t rest : Text} : stripPrefix pre t = some rest ↔ t = pre ++ rest := by
  induction pre generalizing t with
  | nil => simp [KaText.stripPrefix]
  | cons p pre ih =>
    cases t with
    | nil => simp [KaText.stripPrefix]
    | cons c t =>
      by_cases hpc : p = c
      · simp [KaText.stripPrefix, hpc, ih]
      · simp [KaText.stripPrefix, hpc, Ne.symm hpc]

/-- Behind its leading backslashes the authority of an allowed endpoint starts with a character of
its own. -/
theorem split_endpoint {t : Text} (hallowed : endpointHostAllowed t = true) :
    ∃ b r, t = "https://".toList ++ (b ++ r) ∧ (∀ c ∈ b, c = '\\') ∧
      (∃ c r', r = c :: r' ∧ endsAuthority c = false) ∧
      shownAuthority t = b ++ r.takeWhile fun c => !(c == '/' || c == '?' || c == '#') := by
  obtain ⟨hstarts, hhost⟩ := endpointHostAllowed_iff.mp hallowed
  obtain ⟨rest, hrest⟩ := Option.isSome_iff_exists.mp hstarts
  have hb : ∀ c ∈ rest.takeWhile (· == '\\'), c = '\\' := fun c hc =>
    by simpa using List.mem_takeWhile_imp hc
  have hauthority : shownAuthority t = rest.takeWhile (· == '\\') ++
      (rest.dropWhile (· == '\\')).takeWhile fun c => !(c == '/' || c == '?' || c == '#') := by
    rw [shownAuthority, hrest, Option.getD_some]
    conv_lhs => rw [← List.takeWhile_append_dropWhile (p := (· == '\\')) (l := rest)]
    exact List.takeWhile_append_of_pos fun c hc => by rw [hb c hc]; rfl
  refine ⟨_, _, ?_, hb, ?_, hauthority⟩
  · rw [List.takeWhile_append_dropWhile]
    exact stripPrefix_iff.mp hrest
  · rw [hauthority] at hhost
    have hshown := shownHost_append hb hhost
    cases hr : rest.dropWhile (· == '\\') with
    | nil =>
      rw [hr] at hshown
      exact absurd hshown (by decide)
    | cons c r =>
      refine ⟨c, r, rfl, ?_⟩
      have hc : c ≠ '\\' := by
        have hhead := List.head?_dropWhile_not (· == '\\') rest
        rw [hr] at hhead
        simpa using hhead
      rw [hr] at hshown
      by_contra hends
      have hstop : (!(c == '/' || c == '?' || c == '#')) = false := by
        simpa [endsAuthority, isSlash, hc, or_assoc] using hends
      rw [List.takeWhile_cons_of_neg (by simp [hstop])] at hshown
      exact absurd hshown (by decide)

/-- The authority as the client cuts it out ends at the first backslash behind the leading ones. -/
theorem cut_endpoint {t : Text} (hallowed : endpointHostAllowed t = true) :
    ∃ b c r, t = "https://".toList ++ (b ++ c :: r) ∧ (∀ c ∈ b, c = '\\') ∧ endsAuthority c = false ∧
      shownAuthority t = b ++ unslashed t ∧
      beforeBackslash t = c :: r.takeWhile (!endsAuthority ·) := by
  obtain ⟨b, _, ht, hb, ⟨c, r, rfl, hc⟩, hauthority⟩ := split_endpoint hallowed
  have hchars := hc
  simp only [endsAuthority, isSlash, Bool.or_eq_false_iff] at hchars
  have hunslashed : unslashed t = c :: r.takeWhile fun c => !(c == '/' || c == '?' || c == '#') := by
    rw [unslashed, hauthority, List.dropWhile_append_of_pos (fun c hc => by rw [hb c hc]; rfl),
      List.takeWhile_cons_of_pos (by simp [hchars]), List.dropWhile_cons_of_neg (by simp [hchars])]
  refine ⟨b, c, r, ht, hb, hc, ?_, ?_⟩
  · rw [hauthority, hunslashed, List.takeWhile_cons_of_pos (by simp [hchars])]
  · rw [beforeBackslash, hunslashed, List.takeWhile_cons_of_pos (by simpa using hchars.1.1.2),
      List.takeWhile_takeWhile]
    refine congrArg _ (congrArg (List.takeWhile · r) (funext fun d => ?_))
    simp only [endsAuthority, isSlash, Bool.decide_and, Bool.decide_eq_true, bne, Bool.not_or]
    cases d == '/' <;> cases d == '\\' <;> rfl

theorem urlHost_endpoint {r : HostReader} {b rest : Text} {c : Char} (hb : ∀ c ∈ b, c = '\\')
    (hc : endsAuthority c = false) (hclean : ("https://".toList ++ (b ++ c :: rest)).any
      isControlOrSpace = false) :
    urlHost r ("https://".toList ++ (b ++ c :: rest)) =
      readAuthority r (c :: rest.takeWhile (!endsAuthority ·)) := by
  have hslash : isSlash c = false := by
    simp only [endsAuthority, Bool.or_eq_false_iff] at hc
    exact hc.1.1
  have hprefix : stripPrefix "https:".toList ("https://".toList ++ (b ++ c :: rest)) =
      some (('/' :: '/' :: b) ++ c :: rest) := stripPrefix_iff.mpr rfl
  have hskip : ∀ d ∈ '/' :: '/' :: b, isSlash d = true := by
    intro d hd
    simp only [List.mem_cons] at hd
    rcases hd with rfl | rfl | hd
    · rfl
    · rfl
    · rw [hb d hd]
      rfl
  rw [urlHost, clean_endpoint hclean, hprefix, Option.bind_some, readAddress,
    List.dropWhile_append_of_pos hskip, List.dropWhile_cons_of_neg (by simp [hslash]),
    List.takeWhile_cons_of_pos (by simp [hc])]

/-- The endpoint cut off at the first backslash behind the leading ones. -/
def cutOff (endpoint : Text) : Text := "https://".toList ++ beforeBackslash endpoint

theorem urlHost_cutOff {r : HostReader} {t : Text} (hclean : t.any isControlOrSpace = false)
    (hallowed : endpointHostAllowed t = true) :
    urlHost r t = readAuthority r (beforeBackslash t) ∧ urlHost r (cutOff t) = urlHost r t := by
  obtain ⟨b, c, rest, ht, hb, hc, -, hcut⟩ := cut_endpoint hallowed
  have hbegins : (c :: rest.takeWhile (!endsAuthority ·)) <+: c :: rest :=
    List.cons_prefix_cons.mpr ⟨rfl, List.takeWhile_prefix _⟩
  have hcutClean : ("https://".toList ++ ([] ++ c :: rest.takeWhile (!endsAuthority ·))).any
      isControlOrSpace = false := by
    rw [ht, List.any_append, List.any_append, Bool.or_eq_false_iff, Bool.or_eq_false_iff] at hclean
    rw [List.nil_append, List.any_append, hclean.1, Bool.false_or, List.any_eq_false]
    exact fun d hd => List.any_eq_false.mp hclean.2.2 d (hbegins.mem hd)
  have hfull : urlHost r t = readAuthority r (c :: rest.takeWhile (!endsAuthority ·)) := by
    rw [ht] at hclean ⊢
    exact urlHost_endpoint hb hc hclean
  have hself : (rest.takeWhile (!endsAuthority ·)).takeWhile (!endsAuthority ·) =
      rest.takeWhile (!endsAuthority ·) :=
    List.takeWhile_eq_self_iff.mpr fun d hd => by simpa using List.mem_takeWhile_imp hd
  have hcutHost : urlHost r (cutOff t) = readAuthority r (c :: rest.takeWhile (!endsAuthority ·)) := by
    have hshort := urlHost_endpoint (r := r) (b := []) (by simp) hc hcutClean
    rw [List.nil_append, hself] at hshort
    unfold cutOff
    rw [hcut, hshort]
  exact ⟨by rw [hfull, hcut], hcutHost.trans hfull.symm⟩

/-- What the registry accepts as a web endpoint. -/
theorem normalize_endpoint {token t : Text} (hweb : startsWith "https://".toList (trim token) = true)
    (hok : normalizeDeviceToken token = .ok t) :
    t = trim token ∧ t.any isControlOrSpace = false ∧ endpointHostAllowed t = true := by
  simp only [normalizeDeviceToken, hweb, if_true] at hok
  split at hok
  · cases hok
  · next hlimits =>
    split at hok
    · cases hok
    · next hallowed =>
      obtain rfl : trim token = t := Except.ok.inj hok
      push Not at hlimits
      exact ⟨rfl, by simpa using hlimits.2, by simpa using hallowed⟩

/-- The request goes to the host that the client finds in the endpoint. -/
theorem sendHost_eq (r : HostReader) {subscription : WebPushSubscription} {t : Text}
    (hsub : trim subscription.endpoint = t) (hallowed : endpointHostAllowed t = true) :
    sendHost r subscription = urlHost r t := by
  obtain ⟨b, c, rest, ht, -, -, hauthority, hcut⟩ := cut_endpoint hallowed
  have hne : shownAuthority t ≠ [] := by
    intro hnil
    rw [hnil] at hauthority
    rw [beforeBackslash, (List.append_eq_nil_iff.mp hauthority.symm).2] at hcut
    cases hcut
  have horigin : (originOf t).isSome = true := by
    have hprefix := stripPrefix_iff.mpr ht
    rw [shownAuthority, hprefix, Option.getD_some] at hne
    rw [originOf, hprefix, Option.bind_some]
    simp only [if_neg hne, Option.isSome_some]
  obtain ⟨origin, horigin⟩ := Option.isSome_iff_exists.mp horigin
  rw [sendHost, hsub, horigin, Option.bind_some]

/-- The host that the HTTP client finds in an accepted web endpoint is one of the push services, and
so is the host that the service posts to, exactly when no backslash stands in the authority behind
its leading ones, or the endpoint cut off at the first such backslash leads to no other host either. -/
theorem endpoint_hosts (r : HostReader) (hr : r.Lawful) (token t : Text)
    (hweb : startsWith "https://".toList (trim token) = true)
    (hok : normalizeDeviceToken token = .ok t) :
    ((∀ host, urlHost r t = some host → AllowedHost host) ↔
      ('\\' ∈ unslashed t → ∀ host, urlHost r (cutOff t) = some host → AllowedHost host)) ∧
      ∀ subscription : WebPushSubscription, trim subscription.endpoint = t →
        sendHost r subscription = urlHost r t := by
  obtain ⟨rfl, hclean, hallowed⟩ := normalize_endpoint hweb hok
  obtain ⟨hhost, hcut⟩ := urlHost_cutOff (r := r) hclean hallowed
  refine ⟨⟨fun h _ host hread => h host (hcut ▸ hread), fun h host hread => ?_⟩,
    fun subscription hsub => sendHost_eq r hsub hallowed⟩
  by_cases hback : '\\' ∈ unslashed (trim token)
  · exact h hback host (hcut ▸ hread)
  · have hbefore : beforeBackslash (trim token) = unslashed (trim token) :=
      List.takeWhile_eq_self_iff.mpr fun c hc => by
        simpa using fun hcb : c = '\\' => hback (hcb ▸ hc)
    obtain ⟨b, c, rest, -, hb, -, hauthority, -⟩ := cut_endpoint hallowed
    have hshown := (endpointHostAllowed_iff.mp hallowed).2
    rw [hauthority] at hshown
    rw [hhost, hbefore] at hread
    exact readAuthority_allowed hr (shownHost_append hb hshown) hread

/-! ## A reading of plain names -/

/-- Names of letters, digits, hyphens and dots, in lower case. -/
def plainReader : HostReader where
  ipv6 _ := none
  ipv4 _ := none
  domainToAscii b :=
    let chars := b.map fun c => Char.ofNat c.toNat
    if chars.all fun c => c.isAlphanum || c == '-' || c == '.' then some (chars.map Char.toLower)
    else none

theorem chars_utf8 {t : Text} (h : t.all isPlain) :
    (utf8 t).map (fun c => Char.ofNat c.toNat) = t := by
  have hall : ∀ n < 128, (String.utf8EncodeChar (Char.ofNat n)).map (fun c => Char.ofNat c.toNat) =
      [Char.ofNat n] := by decide +kernel
  induction t with
  | nil => rfl
  | cons c t ih =>
    simp only [List.all_cons, Bool.and_eq_true] at h
    obtain ⟨n, hn, rfl⟩ := exists_ascii (plain_range h.1).1
    have hcons : utf8 (Char.ofNat n :: t) = String.utf8EncodeChar (Char.ofNat n) ++ utf8 t := rfl
    rw [hcons, List.map_append, hall n hn, ih h.2]
    rfl

theorem plainReader_reads {b : Bytes} {d : Text} (h : plainReader.domainToAscii b = some d) :
    (∀ c ∈ b, c ≠ 0x5b) ∧ d = (b.map fun c => Char.ofNat c.toNat).map Char.toLower := by
  simp only [plainReader] at h
  split at h
  · next hall =>
    refine ⟨?_, (Option.some.inj h).symm⟩
    rintro c hc rfl
    exact absurd (List.all_eq_true.mp hall _ (List.mem_map_of_mem hc)) (by decide)
  · cases h

theorem plainReader_lawful : plainReader.Lawful where
  ipv6_chars := nofun
  brackets h hmem := (plainReader_reads h).1 _ hmem rfl
  plain ht h := (plainReader_reads h).2.trans (by rw [chars_utf8 ht])
  labels {b t d} ht h := by
    have hdot : (utf8 ('.' :: t)).map (fun c => Char.ofNat c.toNat) = '.' :: t :=
      chars_utf8 (by rw [List.all_cons, ht]; rfl)
    rw [(plainReader_reads h).2, List.map_append, hdot, List.map_append]
    exact List.suffix_append _ _

/-- An endpoint of a push service. -/
theorem sample_hosts : urlHost plainReader "https://fcm.googleapis.com/fcm/send/abc".toList =
      some "fcm.googleapis.com".toList ∧
    ∀ host, urlHost plainReader "https://fcm.googleapis.com/fcm/send/abc".toList = some host →
      AllowedHost host :=
  ⟨by decide +kernel,
    (endpoint_hosts plainReader plainReader_lawful "https://fcm.googleapis.com/fcm/send/abc".toList _
      (by decide +kernel) (by rfl)).1.mpr fun hback => absurd hback (by decide +kernel)⟩

/-- A backslash behind another host: the list checks the host behind it, the client posts to the one
before it. -/
theorem backslash_host :
    ¬∀ (r : HostReader), r.Lawful → ∀ token t : Text, startsWith "https://".toList (trim token) = true →
      normalizeDeviceToken token = .ok t → ∀ host, urlHost r t = some host → AllowedHost host := by
  intro h
  have hhost := h plainReader plainReader_lawful "https://evil.example\\@fcm.googleapis.com/x".toList _
    (by decide +kernel) (by rfl) "evil.example".toList (by decide +kernel)
  exact absurd hhost (by decide +kernel)

end KaChatIndexer.PushEndpoints
