/-
Requests on the heap.

A request is handled by address as it is on the lists of entries: the words it splits
its name into are nobody else's and are still there when the search reads them, the entry
it makes is in no list until it is added, and the value it sends is read from an entry
that is there, whether the cache took it or not.

Nothing a request leaves behind is ever given back.  The words and their array, and the
block whose pointer was dropped, belong to no entry, and only entries are freed.
-/
import DnsServer.Code.ServerMemory
import DnsServer.Proofs.Agreement
import DnsServer.Proofs.CacheRuns

namespace DnsServer

open Call

namespace CacheMemory

variable {m : CacheMemory} {lists : Fin maxCache → List Nat} {cache cache' : DNSCache}
  {i : Fin maxCache} {a b n : Nat} {e : CacheEntry} {bytes : Bytes} {block : Block}

/-! ### Blocks of the request's -/

theorem malloc_blocks_of_ne (m : CacheMemory) (block : Block) (ha : a ≠ m.fresh) :
    (m.malloc block).2.heap.blocks a = m.heap.blocks a := Function.update_of_ne ha _ _

theorem Stands.malloc_parts (h : m.Stands lists cache) (block : Block) (ha : a ∈ lists i) :
    (m.malloc block).2.heap.parts a = m.heap.parts a := by
  have hne := Nat.ne_of_lt (h.below ha (h.represents.1.mem_parts ha))
  show Block.parts a _ = Block.parts a _
  rw [malloc_blocks_of_ne m block hne]

/-- A string stays when something is allocated. -/
theorem Foreign.malloc (hforeign : m.Foreign lists b bytes) (h : m.Stands lists cache)
    (block : Block) : (m.malloc block).2.Foreign lists b bytes := by
  have hne : b ≠ m.fresh := by
    intro heq
    have hunused := (h.unused m.fresh).mpr (Nat.le_refl _)
    rw [← heq] at hunused
    have hstring := hforeign.1
    rw [hunused] at hstring
    simp [Block.asString] at hstring
  refine ⟨?_, fun i a ha => ?_⟩
  · rw [malloc_blocks_of_ne m block hne]
    exact hforeign.1
  · rw [h.malloc_parts block ha]
    exact hforeign.2 i a ha

/-- A string that has just been allocated is nobody else's. -/
theorem Stands.foreign_malloc (h : m.Stands lists cache) (bytes : Bytes) :
    (m.malloc (.string bytes)).2.Foreign lists m.fresh bytes := by
  refine ⟨?_, fun i a ha hmem => ?_⟩
  · show (Function.update m.heap.blocks m.fresh _ m.fresh).asString = _
    rw [Function.update_self]
    rfl
  · rw [h.malloc_parts _ ha] at hmem
    exact absurd (h.below ha hmem) (Nat.lt_irrefl _)

/-- Strings by address. -/
def Words (m : CacheMemory) (lists : Fin maxCache → List Nat) (as : List Nat)
    (words : List Bytes) : Prop := List.Forall₂ (m.Foreign lists) as words

theorem Words.imp {m₁ : CacheMemory} {lists₁ : Fin maxCache → List Nat} {as : List Nat}
    {words : List Bytes} (h : m.Words lists as words)
    (hkeep : ∀ a bytes, a ∈ as → m.Foreign lists a bytes → m₁.Foreign lists₁ a bytes) :
    m₁.Words lists₁ as words := by
  induction h with
  | nil => exact List.Forall₂.nil
  | cons hword _ ih =>
      exact List.Forall₂.cons (hkeep _ _ List.mem_cons_self hword)
        (ih fun a bytes ha => hkeep a bytes (List.mem_cons_of_mem _ ha))

theorem Words.readWords {as : List Nat} {words : List Bytes} (h : m.Words lists as words) :
    m.readWords as = done words := by
  induction h with
  | nil => rfl
  | cons hword _ ih =>
      rw [CacheMemory.readWords, CacheHeap.readString_eq hword.1, done_bind, ih]
      rfl

/-- Copies of strings are nobody else's, and what was there before stays. -/
theorem Stands.mallocStrings (words : List Bytes) : ∀ {m : CacheMemory}, m.Stands lists cache →
    (m.mallocStrings words).2.Stands lists cache ∧
      (m.mallocStrings words).2.Words lists (m.mallocStrings words).1 words ∧
      (m.mallocStrings words).2.fresh = m.fresh + words.length ∧
      (m.mallocStrings words).2.heap.frees = m.heap.frees ∧
      (∀ a ∈ (m.mallocStrings words).1, m.fresh ≤ a) ∧
      ∀ b bytes, m.Foreign lists b bytes → (m.mallocStrings words).2.Foreign lists b bytes := by
  induction words with
  | nil =>
      intro m h
      exact ⟨h, List.Forall₂.nil, rfl, rfl, fun a ha => absurd ha List.not_mem_nil,
        fun b bytes hb => hb⟩
  | cons word words ih =>
      intro m h
      have hfirst : (m.malloc (.string word)).2.Stands lists cache := h.malloc (by simp) (by simp)
      obtain ⟨hstands, hwords, hfresh, hfrees, hnew, hold⟩ := ih hfirst
      refine ⟨hstands, List.Forall₂.cons (hold _ _ (h.foreign_malloc word)) hwords, ?_, hfrees, ?_,
        fun b bytes hb => hold b bytes (hb.malloc h _)⟩
      · rw [List.length_cons]
        exact hfresh.trans (by show m.fresh + 1 + words.length = _; omega)
      · intro a ha
        rcases List.mem_cons.mp ha with rfl | ha
        · exact Nat.le_refl _
        · exact Nat.le_of_succ_le (hnew a ha)

/-- A string that is nobody else's can be freed, and the others stay. -/
theorem Stands.free (h : m.Stands lists cache) (ha : m.Foreign lists a bytes) :
    m.heap.free a = done (m.heap.release a) ∧
      Stands { m with heap := m.heap.release a } lists cache ∧
      ∀ b bytes, b ≠ a → m.Foreign lists b bytes →
        Foreign { m with heap := m.heap.release a } lists b bytes := by
  obtain ⟨hstring, hother⟩ := ha
  have hfree := CacheHeap.free_eq (s := m.heap) (a := a) (Or.inr (by rw [hstring]; simp))
  have hunused : m.heap.blocks a ≠ .unused := by
    intro heq
    rw [heq] at hstring
    simp [Block.asString] at hstring
  have hfreed : m.heap.blocks a ≠ .freed := by
    intro heq
    rw [heq] at hstring
    simp [Block.asString] at hstring
  have hparts : ∀ i, ∀ c ∈ lists i, (m.heap.release a).parts c = m.heap.parts c := by
    intro i c hc
    have hne : c ≠ a := fun heq => hother i c hc (heq ▸ h.represents.1.mem_parts hc)
    show Block.parts c _ = Block.parts c _
    rw [CacheHeap.blocks_release, if_neg hne]
  refine ⟨hfree, ⟨?_, fun b => ?_, fun b => ?_, ?_⟩, fun b bytes' hne hb => ⟨?_, fun i c hc => ?_⟩⟩
  · refine h.represents.frame rfl fun i c hc b hb => ?_
    have hne : b ≠ a := fun heq => hother i c hc (heq ▸ hb)
    rw [CacheHeap.blocks_release, if_neg hne]
  · show (m.heap.release a).blocks b = .unused ↔ m.fresh ≤ b
    rw [← h.unused b, CacheHeap.blocks_release]
    by_cases hb : b = a
    · rw [if_pos hb, hb]
      exact ⟨fun heq => by simp at heq, fun heq => absurd heq hunused⟩
    · rw [if_neg hb]
  · show (m.heap.release a).blocks b = .freed ↔ b ∈ m.heap.frees ++ [a]
    rw [CacheHeap.blocks_release, List.mem_append, List.mem_singleton, ← h.freed b]
    by_cases hb : b = a
    · rw [if_pos hb]
      exact ⟨fun _ => Or.inr hb, fun _ => rfl⟩
    · rw [if_neg hb]
      exact ⟨Or.inl, fun hcase => hcase.resolve_right hb⟩
  · refine List.nodup_append.mpr ⟨h.once, List.nodup_singleton a, ?_⟩
    intro b hb c hc heq
    rw [List.mem_singleton] at hc
    rw [heq, hc] at hb
    exact hfreed ((h.freed a).mpr hb)
  · show ((m.heap.release a).blocks b).asString = _
    rw [CacheHeap.blocks_release, if_neg hne]
    exact hb.1
  · show b ∉ (m.heap.release a).parts c
    rw [hparts i c hc]
    exact hb.2 i c hc

/-- So many blocks that are out are no entry's. -/
def Owes (m : CacheMemory) (cache : DNSCache) (n : Nat) : Prop :=
  m.heap.frees.length + 3 * cache.entries.length + n ≤ m.fresh

/-- Splitting a name leaves the array and the words. -/
theorem Stands.extractWords (h : m.Stands lists cache) (howes : m.Owes cache n) (domain : Bytes) :
    ∃ m₁ words, m.extractWordsFromDomain domain = done (words, m₁) ∧ m₁.Stands lists cache ∧
      m₁.Words lists words (DnsServer.extractWordsFromDomain domain) ∧
      m₁.Owes cache (n + 1 + (DnsServer.extractWordsFromDomain domain).length) := by
  have harray : (m.malloc bare).2.Stands lists cache := h.malloc (by simp [bare]) (by simp [bare])
  have hcopy : ((m.malloc bare).2.malloc (.string domain)).2.Stands lists cache :=
    harray.malloc (by simp) (by simp)
  have hforeign := harray.foreign_malloc domain
  obtain ⟨hstands, hwords, hfresh, hfrees, hnew, hold⟩ :=
    hcopy.mallocStrings (DnsServer.extractWordsFromDomain domain)
  have hkept := hold _ _ hforeign
  rcases hcopies : ((m.malloc bare).2.malloc (.string domain)).2.mallocStrings
    (DnsServer.extractWordsFromDomain domain) with ⟨words, m₂⟩
  rw [hcopies] at hstands hwords hfresh hfrees hnew hkept
  obtain ⟨hfree, hfreed, hkeep⟩ := hstands.free hkept
  refine ⟨{ m₂ with heap := m₂.heap.release (m.malloc bare).2.fresh }, words, ?_, hfreed, ?_, ?_⟩
  · have hsplit : m.extractWordsFromDomain domain
        = ((((m.malloc bare).2.malloc (.string domain)).2.mallocStrings
            (DnsServer.extractWordsFromDomain domain)).2.heap.free (m.malloc bare).2.fresh >>=
          fun heap => done
            ((((m.malloc bare).2.malloc (.string domain)).2.mallocStrings
                (DnsServer.extractWordsFromDomain domain)).1,
              { (((m.malloc bare).2.malloc (.string domain)).2.mallocStrings
                  (DnsServer.extractWordsFromDomain domain)).2 with heap })) := rfl
    rw [hsplit, hcopies, hfree]
    rfl
  · refine hwords.imp fun a bytes ha hword => hkeep a bytes ?_ hword
    have hlt : (m.malloc bare).2.fresh + 1 ≤ a := hnew a ha
    omega
  · have hissued : m₂.fresh = m.fresh + 2 + (DnsServer.extractWordsFromDomain domain).length :=
      hfresh
    have hreturned : m₂.heap.frees = m.heap.frees := hfrees
    unfold Owes at howes ⊢
    show (m₂.heap.frees ++ [_]).length + _ + _ ≤ m₂.fresh
    rw [List.length_append, List.length_singleton, hissued, hreturned]
    omega

theorem Owes.keeps {m₁ : CacheMemory} (howes : m.Owes cache n) (h : m.Keeps m₁ cache cache') :
    m₁.Owes cache' n := by
  unfold Owes at howes ⊢
  rw [h.owed, h.fresh]
  exact howes

theorem Owes.malloc (howes : m.Owes cache n) (block : Block) :
    (m.malloc block).2.Owes cache (n + 1) := by
  unfold Owes at howes ⊢
  show m.heap.frees.length + 3 * cache.entries.length + (n + 1) ≤ m.fresh + 1
  omega

theorem Owes.newEntry (howes : m.Owes cache n) (e : CacheEntry) :
    (m.newEntry e).2.Owes cache (n + 3) := by
  unfold Owes at howes ⊢
  show m.heap.frees.length + 3 * cache.entries.length + (n + 3) ≤ m.fresh + 3
  omega

theorem Owes.mono {k : Nat} (howes : m.Owes cache n) (hle : k ≤ n) : m.Owes cache k := by
  unfold Owes at howes ⊢
  omega

/-! ### Looking a name up -/

/-- What a lookup of a name gives by address, beside what it gives: nothing, or a loose entry. -/
inductive Gives (m : CacheMemory) (lists : Fin maxCache → List Nat) (cache : DNSCache) (n : Nat) :
    Option Nat → Option CacheEntry → Prop
  | nothing (howes : m.Owes cache n) : Gives m lists cache n none none
  | entry {a : Nat} {e : CacheEntry} (hloose : m.heap.Loose lists a e)
      (howes : m.Owes cache (n + 3)) : Gives m lists cache n (some a) (some e)

theorem Gives.mono {k : Nat} {found : Option Nat} {entry : Option CacheEntry}
    (h : Gives m lists cache n found entry) (hle : k ≤ n) : Gives m lists cache k found entry := by
  rcases h with howes | ⟨hloose, howes⟩
  · exact Gives.nothing (howes.mono hle)
  · exact Gives.entry hloose (howes.mono (by omega))

/-- The blocks one lookup of a name leaves at least: the array, the words, and one more. -/
def leavesBehind (domainName : Bytes) : Nat :=
  2 + (DnsServer.extractWordsFromDomain domainName).length

theorem readString_malloc (h : m.Stands lists cache) (block : Block)
    (hread : m.heap.readString a = done bytes) :
    (m.malloc block).2.heap.readString a = done bytes := by
  have hne : a ≠ m.fresh := by
    intro heq
    have hunused := (h.unused m.fresh).mpr (Nat.le_refl _)
    rw [heq] at hread
    unfold CacheHeap.readString at hread
    rw [hunused] at hread
    simp [Block.asString] at hread
  unfold CacheHeap.readString at hread ⊢
  rw [malloc_blocks_of_ne m block hne]
  exact hread

theorem readValue_eq_done {s : CacheHeap} {pointer : Option Nat} {value : Option Bytes}
    (h : s.readValue pointer = done value) :
    (pointer = none ∧ value = none) ∨
      ∃ a bytes, pointer = some a ∧ value = some bytes ∧ s.readString a = done bytes := by
  rcases pointer with _ | a
  · exact Or.inl ⟨rfl, (done.inj h).symm⟩
  · obtain ⟨bytes, hread, hvalue⟩ := bind_eq_done.mp
      (show (s.readString a >>= fun bytes => done (some bytes)) = done value from h)
    exact Or.inr ⟨a, bytes, rfl, (done.inj hvalue).symm, hread⟩

/-- What is done when the search has ended. -/
def afterSearchHeap (fuel : Nat) (root : TrieNode) (domainName : Bytes)
    (calls : Nat → HeapCallEnv) (m : CacheMemory) :
    SearchResult → Call (CacheMemory × Option Nat)
  | .record value =>
      let made := ((m.malloc bare).2.malloc bare).2.newEntry ((calls 0).entry domainName value)
      done (made.2, some made.1)
  | .redirect ns =>
      (m.malloc bare).2.retriveValue fuel root
        (if (calls 0).coin then ns.domain1 else ns.domain2) (fun i => calls (i + 1))
  | .missing => done ((m.malloc bare).2, none)

/-- What is done when the cache has answered. -/
def afterLookup (fuel : Nat) (root : TrieNode) (domainName : Bytes) (calls : Nat → HeapCallEnv)
    (words : List Nat) (m : CacheMemory) : Option Nat → Call (CacheMemory × Option Nat)
  | some searchDNSCache =>
      (m.malloc bare).2.heap.readString searchDNSCache >>= fun recordValue =>
        let made := (m.malloc bare).2.newEntry ((calls 0).entry domainName recordValue)
        done (made.2, some made.1)
  | none =>
      (m.malloc bare).2.readWords words >>= fun words =>
        searchTrie fuel root words >>= fun result =>
          afterSearchHeap fuel root domainName calls m result

theorem retriveValue_split {root : TrieNode} {domainName : Bytes} {calls : Nat → HeapCallEnv}
    {m₁ : CacheMemory} {words : List Nat}
    (hsplit : m.extractWordsFromDomain domainName = done (words, m₁)) (fuel : Nat) :
    m.retriveValue (fuel + 1) root domainName calls
      = m₁.lookupDNSCache fuel (calls 0).printNow (calls 0).cleanNow (calls 0).touchNow domainName
          >>= fun r => afterLookup fuel root domainName calls words r.1 r.2.2 := by
  rw [CacheMemory.retriveValue, hsplit, done_bind]
  rfl

theorem Stands.retriveValue {root : TrieNode} {fuel : Nat} :
    ∀ {domainName : Bytes} {calls : Nat → HeapCallEnv} {m : CacheMemory}
      {lists : Fin maxCache → List Nat} {cache cache' : DNSCache} {found : Option CacheEntry}
      {n : Nat}, m.Stands lists cache → m.Owes cache n →
      DnsServer.retriveValue fuel root domainName (fun i => (calls i).toCallEnv) cache
        = done (found, cache') →
      ∃ m₁ lists₁ entry,
        Settles (fun fuel => m.retriveValue fuel root domainName calls) (done (m₁, entry)) ∧
        m₁.Stands lists₁ cache' ∧
        Gives m₁ lists₁ cache' (n + leavesBehind domainName) entry found := by
  induction fuel with
  | zero => intro _ _ _ _ _ _ _ _ _ _ h; simp [DnsServer.retriveValue] at h
  | succ fuel ih =>
      intro domainName calls m lists cache cache' found n hstands howes h
      obtain ⟨m₁, words, hsplit, hstands₁, hwords₁, howes₁⟩ := hstands.extractWords howes domainName
      obtain ⟨m₂, lists₂, pointer, hlookup, hstands₂, hvalue, hkeeps, hforeign⟩ :=
        hstands₁.lookup (calls 0).printNow (calls 0).cleanNow (calls 0).touchNow domainName
      have howes₂ := howes₁.keeps hkeeps
      have hwords₂ := hwords₁.imp fun a bytes _ hword => hforeign a bytes hword
      rw [retriveValue_succ] at h
      rcases hanswer :
          DnsServer.lookupDNSCache (calls 0).cleanNow (calls 0).touchNow cache domainName
        with ⟨cache₂, _ | value⟩
      · rw [hanswer] at h hvalue hstands₂ hkeeps howes₂
        rcases readValue_eq_done hvalue with ⟨rfl, -⟩ | ⟨a, bytes, -, heq, -⟩
        · obtain ⟨result, hsearch, hrest⟩ := bind_eq_done.mp h
          have hraw : (m₂.malloc bare).2.Stands lists₂ cache₂ :=
            hstands₂.malloc (by simp [bare]) (by simp [bare])
          have hread := (hwords₂.imp fun a bytes _ hword => hword.malloc hstands₂ bare).readWords
          have hended := (searchTrie_mono root _).settles_done fuel hsearch
          have howes₃ := howes₂.malloc bare
          -- the search, and then what is done with what it came to
          have hafter : ∀ r, Settles
              (fun fuel => afterSearchHeap fuel root domainName calls m₂ result) (done r) →
              Settles (fun fuel => m.retriveValue fuel root domainName calls) (done r) := by
            intro r hr
            refine Settles.succ (hlookup.andThen (g := fun fuel r =>
              afterLookup fuel root domainName calls words r.1 r.2.2) ?_)
                (retriveValue_split hsplit)
            obtain ⟨enough, henough⟩ := hended.andThen hr
            refine ⟨enough, fun fuel hle => ?_⟩
            show ((m₂.malloc bare).2.readWords words >>= _) = _
            rw [hread, done_bind]
            exact henough fuel hle
          have hleaves : n + 1 + (DnsServer.extractWordsFromDomain domainName).length + 1
              = n + leavesBehind domainName := by
            unfold leavesBehind
            omega
          rw [hleaves] at howes₃
          rcases result with value | ns | _
          · simp only [done.injEq, Prod.mk.injEq] at hrest
            obtain ⟨rfl, rfl⟩ := hrest
            have hraw₂ : ((m₂.malloc bare).2.malloc bare).2.Stands lists₂ cache₂ :=
              hraw.malloc (by simp [bare]) (by simp [bare])
            obtain ⟨hmade, hloose⟩ := hraw₂.newEntry ((calls 0).entry domainName value)
            exact ⟨_, lists₂, _, hafter _ (Settles.done _), hmade,
              Gives.entry hloose (((howes₃.malloc bare).newEntry _).mono (by omega))⟩
          · obtain ⟨m₃, lists₃, entry, hrun, hstands₃, hgives⟩ := ih hraw howes₃ hrest
            exact ⟨m₃, lists₃, entry, hafter _ hrun, hstands₃, hgives.mono (by omega)⟩
          · simp only [done.injEq, Prod.mk.injEq] at hrest
            obtain ⟨rfl, rfl⟩ := hrest
            exact ⟨_, lists₂, none, hafter _ (Settles.done _), hraw, Gives.nothing howes₃⟩
        · simp at heq
      · rw [hanswer] at h hvalue hstands₂ hkeeps howes₂
        rcases readValue_eq_done hvalue with ⟨-, heq⟩ | ⟨a, bytes, rfl, heq, hread⟩
        · simp at heq
        · rw [Option.some.injEq] at heq
          subst heq
          simp only [done.injEq, Prod.mk.injEq] at h
          obtain ⟨rfl, rfl⟩ := h
          have hraw : (m₂.malloc bare).2.Stands lists₂ cache₂ :=
            hstands₂.malloc (by simp [bare]) (by simp [bare])
          obtain ⟨hmade, hloose⟩ := hraw.newEntry ((calls 0).entry domainName value)
          refine ⟨_, lists₂, _, ?_, hmade, Gives.entry hloose ?_⟩
          · refine Settles.succ (hlookup.andThen (g := fun fuel r =>
              afterLookup fuel root domainName calls words r.1 r.2.2) ?_)
                (retriveValue_split hsplit)
            refine Settles.of_eq fun fuel => ?_
            show (CacheHeap.readString _ a >>= _) = _
            rw [readString_malloc hstands₂ bare hread]
            rfl
          · refine ((howes₂.malloc bare).newEntry _).mono ?_
            unfold leavesBehind
            omega

/-! ### Handling a request -/

/-- The value of an entry that was added, or refused, can be read. -/
theorem Added.recordValue_eq {m₁ : CacheMemory} {now : Int} {inserted : Bool}
    (h : m.Added m₁ cache now a e inserted) : m₁.recordValue a = done e.recordValue := by
  obtain ⟨fields, hfields, hvalue⟩ := h.value
  unfold recordValue
  rw [CacheHeap.read_eq hfields, done_bind]
  exact CacheHeap.readString_eq hvalue

theorem recordValue_of_loose (h : m.heap.Loose lists a e) :
    m.recordValue a = done e.recordValue := by
  obtain ⟨fields, hfields, -, -, -, hvalue⟩ := CacheHeap.contents_eq_some_iff.mp h.contents
  unfold recordValue
  rw [CacheHeap.read_eq hfields, done_bind]
  exact CacheHeap.readString_eq hvalue

/-- Of the three blocks of a new entry the cache has all, or nobody has them. -/
theorem Added.owes {m₁ : CacheMemory} {now : Int} {inserted : Bool}
    (h : m.Added m₁ cache now a e inserted) (howes : m.Owes cache (n + 3)) :
    m₁.Owes (DnsServer.addCacheEntry now cache e) n := by
  unfold Owes at howes ⊢
  rw [h.fresh, h.frees, h.entries]
  split <;> omega

end CacheMemory

/-- What the request's name makes the lookup leave, if it comes to one. -/
def HeapRequest.leavesBehind (request : HeapRequest) : Nat :=
  match request.sent with
  | none => 0
  | some sent =>
      if sent.take bufferSize = [] then 0
      else if cstr (sent.take bufferSize) = ascii "trie" then 0
      else CacheMemory.leavesBehind (cstr (sent.take bufferSize))

namespace CacheMemory

variable {m : CacheMemory} {lists : Fin maxCache → List Nat} {cache cache' : DNSCache} {n : Nat}

/-- An entry is added and its value sent. -/
theorem Stands.addAndSend {a : Nat} {e : CacheEntry} (h : m.Stands lists cache)
    (hloose : m.heap.Loose lists a e) (howes : m.Owes cache (n + 3)) (now : Int) :
    ∃ m₁ lists₁,
      Settles (fun fuel => m.addCacheEntry fuel now a >>= fun r =>
        r.1.recordValue a >>= fun value => done (r.1, some value))
        (done (m₁, some e.recordValue)) ∧
      m₁.Stands lists₁ (DnsServer.addCacheEntry now cache e) ∧
      m₁.Owes (DnsServer.addCacheEntry now cache e) n := by
  obtain ⟨m₁, inserted, hsettles, hadded⟩ := h.add hloose now
  obtain ⟨lists₁, hstands⟩ := hadded.stands
  refine ⟨m₁, lists₁, ?_, hstands, hadded.owes howes⟩
  refine hsettles.andThen (g := fun _ r => r.1.recordValue a >>= fun value =>
    done (r.1, some value)) (Settles.of_eq fun fuel => ?_)
  show (m₁.recordValue a >>= fun value => done (m₁, some value)) = _
  rw [hadded.recordValue_eq]
  rfl

/-- What is done with what the lookup gave. -/
def afterRetrival (fuel : Nat) (request : HeapRequest) (buffer : Bytes) (m : CacheMemory) :
    Option Nat → Call (CacheMemory × Option Bytes)
  | some cacheEntry =>
      m.recordValue cacheEntry >>= fun _ =>
        m.addCacheEntry fuel request.addNow cacheEntry >>= fun r =>
          r.1.recordValue cacheEntry >>= fun value => done (r.1, some value)
  | none =>
      if cstr request.forwarded = [] then done (m, some (ascii "Record not found"))
      else
        let made := m.dnsCreateNewEntry buffer (cstr request.forwarded)
        made.2.addCacheEntry fuel request.addNow made.1 >>= fun r =>
          r.1.recordValue made.1 >>= fun value => done (r.1, some value)

theorem handleClient_lookup {root : TrieNode} {request : HeapRequest} {sent : Bytes}
    (hsent : request.sent = some sent) (hempty : sent.take bufferSize ≠ [])
    (hfull : (sent.take bufferSize).length ≠ bufferSize)
    (htrie : cstr (sent.take bufferSize) ≠ ascii "trie") (fuel : Nat) :
    m.handleClient fuel root request
      = m.retriveValue fuel root (cstr (sent.take bufferSize)) request.calls >>= fun r =>
          afterRetrival fuel request (cstr (sent.take bufferSize)) r.1 r.2 := by
  unfold CacheMemory.handleClient
  simp only [hsent, if_neg hempty, if_neg hfull, if_neg htrie]
  refine congrArg (m.retriveValue fuel root (cstr (sent.take bufferSize)) request.calls >>= ·) ?_
  funext r
  rcases r with ⟨m₁, _ | cacheEntry⟩
  · rfl
  · rfl

/-- One request: it is answered as it is on the lists, and leaves what its lookup leaves. -/
theorem Stands.handle {root : TrieNode} {fuel : Nat} {request : HeapRequest}
    {response : Option Bytes} (h : m.Stands lists cache) (howes : m.Owes cache n)
    (hhandle : DnsServer.handleClient fuel root cache request.toRequest = done (response, cache')) :
    ∃ m₁ lists₁,
      Settles (fun fuel => m.handleClient fuel root request) (done (m₁, response)) ∧
      m₁.Stands lists₁ cache' ∧ m₁.Owes cache' (n + request.leavesBehind) := by
  have hkept : ∀ r, (∀ fuel, m.handleClient fuel root request = done (m, r)) →
      (r, cache) = (response, cache') → request.leavesBehind = 0 → ∃ m₁ lists₁,
        Settles (fun fuel => m.handleClient fuel root request) (done (m₁, response)) ∧
        m₁.Stands lists₁ cache' ∧ m₁.Owes cache' (n + request.leavesBehind) := by
    intro r hrun heq hleaves
    rw [Prod.mk.injEq] at heq
    obtain ⟨rfl, rfl⟩ := heq
    rw [hleaves]
    exact ⟨m, lists, Settles.of_eq hrun, h, howes⟩
  unfold DnsServer.handleClient at hhandle
  rcases hsent : request.sent with _ | sent
  · simp only [HeapRequest.toRequest, hsent, done.injEq] at hhandle
    refine hkept none (fun fuel => ?_) hhandle ?_
    · unfold CacheMemory.handleClient
      rw [hsent]
    · unfold HeapRequest.leavesBehind
      rw [hsent]
  simp only [HeapRequest.toRequest, hsent] at hhandle
  by_cases hempty : sent.take bufferSize = []
  · simp only [if_pos hempty, done.injEq] at hhandle
    refine hkept none (fun fuel => ?_) hhandle ?_
    · unfold CacheMemory.handleClient
      simp only [hsent, if_pos hempty]
    · unfold HeapRequest.leavesBehind
      simp only [hsent, if_pos hempty]
  rw [if_neg hempty] at hhandle
  by_cases hfull : (sent.take bufferSize).length = bufferSize
  · rw [if_pos hfull] at hhandle
    simp at hhandle
  rw [if_neg hfull] at hhandle
  by_cases htrie : cstr (sent.take bufferSize) = ascii "trie"
  · simp only [if_pos htrie, done.injEq] at hhandle
    refine hkept _ (fun fuel => ?_) hhandle ?_
    · unfold CacheMemory.handleClient
      simp only [hsent, if_neg hempty, if_neg hfull, if_pos htrie]
    · unfold HeapRequest.leavesBehind
      simp only [hsent, if_neg hempty, if_pos htrie]
  rw [if_neg htrie] at hhandle
  have hleaves : request.leavesBehind = leavesBehind (cstr (sent.take bufferSize)) := by
    unfold HeapRequest.leavesBehind
    simp only [hsent, if_neg hempty, if_neg htrie]
  rw [hleaves]
  obtain ⟨⟨found, cache₁⟩, hfound, hrest⟩ := bind_eq_done.mp hhandle
  obtain ⟨m₁, lists₁, entry, hretrive, hstands, hgives⟩ := h.retriveValue howes hfound
  -- what is left to do settles, so the request does
  have hrequest : ∀ r,
      Settles (fun fuel => afterRetrival fuel request (cstr (sent.take bufferSize)) m₁ entry)
        (done r) →
      Settles (fun fuel => m.handleClient fuel root request) (done r) := by
    intro r hr
    obtain ⟨enough, henough⟩ := hretrive.andThen
      (g := fun fuel r => afterRetrival fuel request (cstr (sent.take bufferSize)) r.1 r.2) hr
    refine ⟨enough, fun fuel hle => ?_⟩
    exact (handleClient_lookup hsent hempty hfull htrie fuel).trans (henough fuel hle)
  rcases hgives with howes₁ | @⟨a, e, hloose, howes₁⟩
  · by_cases hip : cstr request.forwarded = []
    · simp only [if_pos hip, pure_eq, done.injEq, Prod.mk.injEq] at hrest
      obtain ⟨rfl, rfl⟩ := hrest
      refine ⟨m₁, lists₁, hrequest _ (Settles.of_eq fun fuel => ?_), hstands, howes₁⟩
      exact if_pos hip
    · simp only [if_neg hip, pure_eq, done.injEq, Prod.mk.injEq] at hrest
      obtain ⟨rfl, rfl⟩ := hrest
      obtain ⟨hmade, hloose⟩ := hstands.newEntry
        (DnsServer.dnsCreateNewEntry (cstr (sent.take bufferSize)) (cstr request.forwarded))
      obtain ⟨m₂, lists₂, hsettles, hstands₂, howes₂⟩ :=
        hmade.addAndSend hloose (howes₁.newEntry _) request.addNow
      refine ⟨m₂, lists₂, hrequest _ ?_, hstands₂, howes₂⟩
      obtain ⟨enough, henough⟩ := hsettles
      refine ⟨enough, fun fuel hle => ?_⟩
      show (if cstr request.forwarded = [] then _ else _) = _
      rw [if_neg hip]
      exact henough fuel hle
  · simp only [pure_eq, done.injEq, Prod.mk.injEq] at hrest
    obtain ⟨rfl, rfl⟩ := hrest
    obtain ⟨m₂, lists₂, hsettles, hstands₂, howes₂⟩ :=
      hstands.addAndSend hloose howes₁ request.addNow
    refine ⟨m₂, lists₂, hrequest _ ?_, hstands₂, howes₂⟩
    obtain ⟨enough, henough⟩ := hsettles
    refine ⟨enough, fun fuel hle => ?_⟩
    show (m₁.recordValue a >>= _) = _
    rw [recordValue_of_loose hloose, done_bind]
    exact henough fuel hle

end CacheMemory

/-! ### Runs of requests -/

theorem answerClient_mono (root : TrieNode) (cache : DNSCache) (request : HeapRequest) :
    Mono fun fuel => answerClient fuel root cache request :=
  Mono.bind (handleClient_mono root cache request.toRequest) fun _ => Mono.const _

/-- The memory and the cache after requests. -/
def StandsAfter (requests : List HeapRequest) (m : CacheMemory) (cache : DNSCache) : Prop :=
  ∃ lists, m.Stands lists cache ∧ m.Owes cache (requests.map HeapRequest.leavesBehind).sum

theorem StandsAfter.start : StandsAfter [] CacheMemory.initializeDNSCache initializeDNSCache := by
  refine ⟨_, CacheMemory.stands_start, ?_⟩
  unfold CacheMemory.Owes
  exact Nat.le_refl 0

theorem StandsAfter.step {root : TrieNode} {requests : List HeapRequest} {m : CacheMemory}
    {cache cache' : DNSCache} {request : HeapRequest} {response : Option Bytes}
    (h : StandsAfter requests m cache)
    (hstep : Settles (fun fuel => answerClient fuel root cache request) (done (cache', response))) :
    ∃ m', Settles (fun fuel => m.handleClient fuel root request) (done (m', response)) ∧
      StandsAfter (requests ++ [request]) m' cache' := by
  obtain ⟨lists, hstands, howes⟩ := h
  obtain ⟨enough, henough⟩ := hstep
  obtain ⟨⟨response', cache₁⟩, hhandle, heq⟩ := bind_eq_done.mp (henough enough (Nat.le_refl _))
  simp only [pure_eq, done.injEq, Prod.mk.injEq] at heq
  obtain ⟨rfl, rfl⟩ := heq
  obtain ⟨m', lists', hsettles, hstands', howes'⟩ := hstands.handle howes hhandle
  refine ⟨m', hsettles, lists', hstands', ?_⟩
  rw [List.map_append, List.sum_append, List.map_singleton, List.sum_singleton]
  exact howes'

/--
**Requests are answered by address as on the lists, and each leaves memory behind.**  Any run of
requests that the server on the lists of entries answers is answered alike by the server on the
heap: it reads no block that was freed, frees none twice, and its cache is the cache on the lists.
For each name a request has it look up, a block for the array of words, one for each word and one
more are out and no entry's.
-/
theorem requests_leave_words (root : TrieNode) (requests : List HeapRequest) (cache : DNSCache)
    (responses : List (Option Bytes))
    (h : Settles (fun fuel => execAll (answerClient fuel root) initializeDNSCache requests)
      (done (cache, responses))) :
    ∃ m lists,
      Settles (fun fuel => execAll (fun m request => m.handleClient fuel root request)
        CacheMemory.initializeDNSCache requests) (done (m, responses)) ∧
      m.heap.Represents lists cache ∧
      m.heap.frees.Nodup ∧
      (requests.map HeapRequest.leavesBehind).sum
        ≤ (m.ledger.unowned (m.heap.owned lists)).length := by
  obtain ⟨m, hsettles, lists, hstands, howes⟩ := @execAll_simulates _ _ _ _
    (fun fuel m request => CacheMemory.handleClient fuel root m request)
    (fun fuel cache request => answerClient fuel root cache request)
    (fun requests _ => StandsAfter requests) (answerClient_mono root)
    (fun _ _ _ _ _ _ _ hafter hstep => hafter.step hstep) _ _ [] _ _ _ _ StandsAfter.start h
  refine ⟨m, lists, hsettles, hstands.represents, hstands.once, ?_⟩
  have hlive := hstands.valid.length_live
  have hunowned := Ledger.length_unowned hstands.represents.1.nodup_owned
    fun a ha => hstands.owned_live ha
  rw [hstands.represents.length_owned] at hunowned
  have hissued : m.ledger.issued = m.fresh := rfl
  have hfreed : m.ledger.freed = m.heap.frees := rfl
  rw [hissued, hfreed] at hlive
  unfold CacheMemory.Owes at howes
  rw [List.nil_append] at howes
  omega

/-- The same name asked for twice, the second time from the cache. -/
def repeatedRequest : HeapRequest :=
  { sent := exampleRequest.sent
    calls := fun i => { toCallEnv := exampleRequest.calls i, printNow := 0 }
    forwarded := [], addNow := 0 }

theorem requests_leave_words_repeated :
    ∃ cache responses m lists,
      Settles (fun fuel => execAll (fun m request => m.handleClient fuel exampleTrie request)
        CacheMemory.initializeDNSCache [repeatedRequest, repeatedRequest]) (done (m, responses)) ∧
      m.heap.Represents lists cache ∧
      m.heap.frees.Nodup ∧
      ([repeatedRequest, repeatedRequest].map HeapRequest.leavesBehind).sum
        ≤ (m.ledger.unowned (m.heap.owned lists)).length :=
  ⟨_, _, requests_leave_words exampleTrie [repeatedRequest, repeatedRequest] _ _
    ((execAll_mono (answerClient_mono exampleTrie) _ _).settles_done 9 rfl)⟩

end DnsServer
