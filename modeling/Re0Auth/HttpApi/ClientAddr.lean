
/-!
# The address a request is billed under

`clientAddr` (`internal/httpapi/clientaddr.go`): the peer's address, unless the deployment says that the
peer is its own proxy and that this proxy writes `X-Forwarded-For`. Then one entry of the header counts, the
last one that is not empty.

* **`rightmostHop`**: the two nested loops of the source, from the right;
* **`rightmostHop_eq`**: what they find is the last entry over all lines;
* **`clientAddr_eq`**: the request enters through its peer and that entry only;
* **`billed_address`**: two requests that agree on these are billed alike, and what stands in front of the
  last entry changes nothing.
-/

namespace Re0Auth.HttpApi

open List

/-- The functions of `net`, `net/netip` and `strings` the source calls: `SplitHostPort` (its host, where it
does not fail), `ParseAddr`, `Addr.Unmap`, `Addr.String`, `Prefix.Contains` and `TrimSpace`. -/
structure Net (Addr Prefix : Type) where
  splitHostPort : String → Option String
  parseAddr : String → Option Addr
  unmap : Addr → Addr
  string : Addr → String
  contains : Prefix → Addr → Bool
  trimSpace : String → String

/-- `ClientAddrHeader`. -/
inductive ClientAddrHeader
  | peer
  | xForwardedFor
  deriving DecidableEq

/-- What `clientAddr` reads of a request. -/
structure AddrRequest where
  remoteAddr : String
  /-- `r.Header.Values("X-Forwarded-For")`. -/
  forwardedFor : List String

variable {Addr Prefix : Type} (N : Net Addr Prefix)

/-- `hostOnly`. -/
def hostOnly (remoteAddr : String) : String := (N.splitHostPort remoteAddr).getD remoteAddr

/-- `trustedBy`. -/
def trustedBy (addr : Addr) (trusted : List Prefix) : Bool := trusted.any (N.contains · addr)

/-- `strings.Split(line, ",")`. -/
def splitComma (line : String) : List String := (line.toList.splitOn ',').map String.ofList

/-- The inner loop of `rightmostHop`, over the entries of a line from the right: `none` where all are empty,
`some none` where the one it stops at cannot be read. -/
def hopOfParts : List String → Option (Option Addr)
  | [] => none
  | part :: rest =>
    if N.trimSpace part = "" then hopOfParts rest
    else some ((N.parseAddr (N.trimSpace part)).map N.unmap)

/-- The outer loop, over the lines from the right. -/
def hopOfLines : List String → Option Addr
  | [] => none
  | line :: rest =>
    match hopOfParts N (splitComma line).reverse with
    | some hop => hop
    | none => hopOfLines rest

/-- `rightmostHop`. -/
def rightmostHop (r : AddrRequest) : Option Addr := hopOfLines N r.forwardedFor.reverse

/-- `forwardedClient`. -/
def forwardedClient (r : AddrRequest) (peer : Addr) (trusted : List Prefix) : String :=
  match rightmostHop N r with
  | none => N.string peer
  | some hop => if trustedBy N hop trusted then N.string peer else N.string hop

/-- **`clientAddr`**. -/
def clientAddr (r : AddrRequest) (trusted : List Prefix) (header : ClientAddrHeader) : String :=
  match N.parseAddr (hostOnly N r.remoteAddr) with
  | none => hostOnly N r.remoteAddr
  | some addr =>
    if header ≠ .xForwardedFor ∨ trustedBy N (N.unmap addr) trusted = false then N.string (N.unmap addr)
    else forwardedClient N r (N.unmap addr) trusted

/-! ## The last entry -/

/-- The entries of a line that are not empty. -/
def entries (line : String) : List String := ((splitComma line).map N.trimSpace).filter (· ≠ "")

/-- **The last entry** that is not empty, over all lines. -/
def lastEntry (values : List String) : Option String := (values.flatMap (entries N)).getLast?

/-- The address of an entry. -/
def entryAddr (entry : String) : Option Addr := (N.parseAddr entry).map N.unmap

theorem hopOfParts_eq (parts : List String) :
    hopOfParts N parts = ((parts.map N.trimSpace).filter (· ≠ "")).head?.map (entryAddr N) := by
  induction parts with
  | nil => rfl
  | cons part rest ih => by_cases h : N.trimSpace part = "" <;> simp [hopOfParts, h, ih, entryAddr]

theorem hopOfLines_eq (lines : List String) :
    hopOfLines N lines = (lines.flatMap fun line => (entries N line).reverse).head?.bind (entryAddr N) := by
  induction lines with
  | nil => rfl
  | cons line rest ih =>
    have hparts : hopOfParts N (splitComma line).reverse = (entries N line).reverse.head?.map (entryAddr N) := by
      rw [hopOfParts_eq, entries, map_reverse, filter_reverse]
    rw [hopOfLines, hparts, flatMap_cons, head?_append, ih]
    -- a line without an entry leaves the search to the lines before it
    cases (entries N line).reverse.head? <;> rfl

/-- **Both loops find the last entry.** -/
theorem rightmostHop_eq (r : AddrRequest) :
    rightmostHop N r = (lastEntry N r.forwardedFor).bind (entryAddr N) := by
  rw [rightmostHop, hopOfLines_eq, lastEntry, ← head?_reverse, reverse_flatMap]
  rfl

theorem splitComma_append (text line : String) :
    splitComma (text ++ "," ++ line) = splitComma text ++ splitComma line := by
  have hlist : (text ++ "," ++ line).toList = text.toList ++ ',' :: line.toList := by simp
  rw [splitComma, hlist, splitOn, splitOnP_append_cons _ _ (by simp), map_append]
  rfl

/-- What stands in front of an entry does not count. -/
theorem lastEntry_front {values more l : List String}
    (hmore : more.flatMap (entries N) = l ++ values.flatMap (entries N)) (h : lastEntry N values ≠ none) :
    lastEntry N more = lastEntry N values := by
  obtain ⟨e, he⟩ := Option.ne_none_iff_exists'.1 h
  rw [he, lastEntry, hmore, getLast?_append]
  rw [lastEntry] at he
  rw [he, Option.some_or]

/-! ## The address -/

/-- The peer's address; a peer that is none stands for itself. -/
def peerAddr (remoteAddr : String) : String :=
  ((N.parseAddr (hostOnly N remoteAddr)).map fun a => N.string (N.unmap a)).getD (hostOnly N remoteAddr)

/-- The peer is an address inside the trusted list. -/
def peerTrusted (remoteAddr : String) (trusted : List Prefix) : Bool :=
  (N.parseAddr (hostOnly N remoteAddr)).any fun a => trustedBy N (N.unmap a) trusted

/-- **What the address depends on**: the peer, and the last entry where the header counts. -/
theorem clientAddr_eq (r : AddrRequest) (trusted : List Prefix) (header : ClientAddrHeader) :
    clientAddr N r trusted header =
      if header = .xForwardedFor ∧ peerTrusted N r.remoteAddr trusted = true then
        ((((lastEntry N r.forwardedFor).bind (entryAddr N)).filter fun hop => !trustedBy N hop trusted).map
          N.string).getD (peerAddr N r.remoteAddr)
      else peerAddr N r.remoteAddr := by
  rw [clientAddr, peerTrusted, peerAddr]
  cases N.parseAddr (hostOnly N r.remoteAddr) with
  | none => simp
  | some addr =>
    by_cases hheader : header = .xForwardedFor
    · cases htrusted : trustedBy N (N.unmap addr) trusted
      · simp [htrusted]
      · unfold forwardedClient
        rw [rightmostHop_eq]
        cases (lastEntry N r.forwardedFor).bind (entryAddr N) with
        | none => simp [hheader, htrusted]
        | some hop => cases hhop : trustedBy N hop trusted <;> simp [hheader, htrusted, hhop, Option.filter]
    · simp [hheader]

/-- **A caller cannot choose the address it is billed under.** Requests of one peer get one answer where the
header is off, where the peer is not trusted, and where their last entries are the same; lines and entries
added in front of an entry change nothing; and the answer is the peer's address, or the address of the last
entry, which is then not a trusted one. -/
theorem billed_address (trusted : List Prefix) (header : ClientAddrHeader) (remote : String) :
    (∀ values values', header = .peer ∨ peerTrusted N remote trusted = false ∨
        lastEntry N values = lastEntry N values' →
      clientAddr N ⟨remote, values⟩ trusted header = clientAddr N ⟨remote, values'⟩ trusted header) ∧
    (∀ more text line rest, lastEntry N (line :: rest) ≠ none →
      clientAddr N ⟨remote, more ++ line :: rest⟩ trusted header =
          clientAddr N ⟨remote, line :: rest⟩ trusted header ∧
        clientAddr N ⟨remote, more ++ (text ++ "," ++ line) :: rest⟩ trusted header =
          clientAddr N ⟨remote, line :: rest⟩ trusted header) ∧
    ∀ values, clientAddr N ⟨remote, values⟩ trusted header = peerAddr N remote ∨
      ∃ entry hop, lastEntry N values = some entry ∧ entryAddr N entry = some hop ∧
        trustedBy N hop trusted = false ∧ clientAddr N ⟨remote, values⟩ trusted header = N.string hop := by
  have hlast : ∀ {values values'}, lastEntry N values = lastEntry N values' →
      clientAddr N ⟨remote, values⟩ trusted header = clientAddr N ⟨remote, values'⟩ trusted header := by
    intro values values' h
    rw [clientAddr_eq, clientAddr_eq, h]
  refine ⟨fun values values' h => ?_, fun more text line rest h => ⟨hlast ?_, hlast ?_⟩, fun values => ?_⟩
  · rcases h with rfl | h | h
    · simp [clientAddr_eq]
    · simp [clientAddr_eq, h]
    · exact hlast h
  · exact lastEntry_front N flatMap_append h
  · refine lastEntry_front N (l := more.flatMap (entries N) ++ entries N text) ?_ h
    simp [entries, splitComma_append]
  · rw [clientAddr_eq]
    split
    · cases hentry : lastEntry N values with
      | none => exact .inl rfl
      | some entry =>
        cases hhop : entryAddr N entry with
        | none => exact .inl (by simp [hhop])
        | some hop =>
          cases htrusted : trustedBy N hop trusted
          · exact .inr ⟨entry, hop, rfl, hhop, htrusted, by simp [hhop, htrusted, Option.filter]⟩
          · exact .inl (by simp [hhop, htrusted, Option.filter])
    · exact .inl rfl

/-- Addresses that are their own texts, and prefixes of one address. -/
def plainNet : Net String String := ⟨some, some, id, id, (· == ·), id⟩

/-- A caller behind a trusted proxy that writes a header of its own. -/
theorem billed_address_front : clientAddr plainNet ⟨"p", ["x", "y,a"]⟩ ["p"] .xForwardedFor = "a" := by
  have h := (billed_address plainNet ["p"] .xForwardedFor "p").2.1 ["x"] "y" "a" [] (by decide)
  exact h.2.trans (by decide)

end Re0Auth.HttpApi
