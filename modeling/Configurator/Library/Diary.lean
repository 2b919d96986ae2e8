import Configurator.Library.Provenance

/-! Runs with a diary. The diary of a world holds every change it went through and who
made it. Programs that only act on what they have been told make, step by step, the moves
of an abstract system whose moves may look back into the diary. -/
namespace Configurator

/-- One change of a world, made by a party or, without one, from outside. -/
structure Entry (World Party : Type) where
  author : Option Party
  before : World
  after : World

/-- A world and the changes that led to it, the last one first. -/
structure Diary (World Party : Type) where
  now : World
  entries : List (Entry World Party)

/-- The diary as it was when the entry was made, after these older ones. -/
def Entry.onto {World Party : Type} (entry : Entry World Party) (older : List (Entry World Party)) :
    Diary World Party :=
  ⟨entry.before, older⟩

/-- A call together with the answer it was given. -/
abbrev Exchange (Call : Type) (Answer : Call → Type) := (request : Call) × Answer request

/-- The entry was made from this diary as the rules say. -/
def Entry.Follows {World Party : Type} (outside : World → World → Prop)
    (moves : Diary World Party → Party → World → Prop) (earlier : Diary World Party)
    (entry : Entry World Party) : Prop :=
  match entry.author with
  | none => outside entry.before entry.after
  | some party => moves earlier party entry.after

namespace Diary

variable {World Party : Type}

/-- The diary before anything has happened. -/
def opened (world : World) : Diary World Party := ⟨world, []⟩

def write (diary : Diary World Party) (author : Option Party) (after : World) : Diary World Party :=
  ⟨after, ⟨author, diary.now, after⟩ :: diary.entries⟩

/-- The world was once as given. -/
def Past (diary : Diary World Party) (world : World) : Prop :=
  world = diary.now ∨ ∃ entry ∈ diary.entries, entry.before = world

variable {diary : Diary World Party} {author : Option Party} {after world : World}

@[simp] theorem now_opened : (opened world : Diary World Party).now = world := rfl

@[simp] theorem entries_opened : (opened world : Diary World Party).entries = [] := rfl

@[simp] theorem now_write : (diary.write author after).now = after := rfl

@[simp] theorem entries_write :
    (diary.write author after).entries = ⟨author, diary.now, after⟩ :: diary.entries := rfl

@[simp] theorem past_opened : (opened after : Diary World Party).Past world ↔ world = after := by
  simp [Past]

@[simp] theorem past_write : (diary.write author after).Past world ↔ world = after ∨ diary.Past world := by
  simp [Past, eq_comm]

theorem past_now (diary : Diary World Party) : diary.Past diary.now := Or.inl rfl

/-- The entry has been written since the diary was as given. -/
def Since (base diary : Diary World Party) (entry : Entry World Party) : Prop :=
  ∃ recent, diary.entries = recent ++ base.entries ∧ entry ∈ recent

/-- The diary has been continued. -/
def Continues (base diary : Diary World Party) : Prop := ∃ recent, diary.entries = recent ++ base.entries

theorem Continues.refl (diary : Diary World Party) : diary.Continues diary := ⟨[], rfl⟩

theorem Continues.write {base : Diary World Party} (continues : base.Continues diary) :
    base.Continues (diary.write author after) := by
  obtain ⟨recent, same⟩ := continues
  exact ⟨⟨author, diary.now, after⟩ :: recent, by simp [same]⟩

theorem Since.write {base : Diary World Party} {entry : Entry World Party} (since : base.Since diary entry) :
    base.Since (diary.write author after) entry := by
  obtain ⟨recent, same, member⟩ := since
  exact ⟨⟨author, diary.now, after⟩ :: recent, by simp [same], List.mem_cons_of_mem _ member⟩

theorem Continues.since {base : Diary World Party} (continues : base.Continues diary) :
    base.Since (diary.write author after) ⟨author, diary.now, after⟩ := by
  obtain ⟨recent, same⟩ := continues
  exact ⟨⟨author, diary.now, after⟩ :: recent, by simp [same], List.mem_cons_self⟩

/-- The diaries of a system in which the environment moves as `outside` says and every
party as `moves` says. -/
inductive Kept (outside : World → World → Prop) (moves : Diary World Party → Party → World → Prop)
    (start : World) : Diary World Party → Prop where
  | opened : Kept outside moves start (opened start)
  | outside {diary : Diary World Party} {after : World} (kept : Kept outside moves start diary)
      (changes : outside diary.now after) : Kept outside moves start (diary.write none after)
  | moved {diary : Diary World Party} {party : Party} {after : World} (kept : Kept outside moves start diary)
      (made : moves diary party after) : Kept outside moves start (diary.write (some party) after)

namespace Kept

variable {outside : World → World → Prop} {moves : Diary World Party → Party → World → Prop} {start : World}

/-- What holds at first and through every change holds of every world of the diary. It may
speak of the diary, as long as it minds no further entry. -/
theorem always {holds : Diary World Party → World → Prop} (kept : Kept outside moves start diary)
    (later : ∀ {diary author after world}, holds diary world → holds (diary.write author after) world)
    (first : holds (Diary.opened start) start)
    (outer : ∀ {diary after}, outside diary.now after → holds diary diary.now →
      holds (diary.write none after) after)
    (inner : ∀ {diary party after}, Kept outside moves start diary → (∀ world, diary.Past world → holds diary world) →
      moves diary party after → holds (diary.write (some party) after) after) :
    ∀ world, diary.Past world → holds diary world := by
  induction kept with
  | opened =>
    intro world past
    exact past_opened.mp past ▸ first
  | @outside diary after kept changes ih =>
    intro world past
    rcases past_write.mp past with rfl | earlier
    · exact outer changes (ih _ diary.past_now)
    · exact later (ih world earlier)
  | moved kept made ih =>
    intro world past
    rcases past_write.mp past with rfl | earlier
    · exact inner kept ih made
    · exact later (ih world earlier)

theorem invariant {holds : World → Prop} (kept : Kept outside moves start diary) (first : holds start)
    (outer : ∀ {before after}, outside before after → holds before → holds after)
    (inner : ∀ {diary party after}, (∀ world, diary.Past world → holds world) → moves diary party after →
      holds after) : ∀ world, diary.Past world → holds world := by
  have all : ∀ world, diary.Past world → (fun (_ : Diary World Party) => holds) diary world :=
    kept.always id first outer fun _ past made => inner past made
  exact all

/-- Every entry was made as the rules say, and the diary before it was kept. -/
theorem entry {entry : Entry World Party} {recent older : List (Entry World Party)}
    (kept : Kept outside moves start diary) (written : diary.entries = recent ++ entry :: older) :
    Kept outside moves start (entry.onto older) ∧ entry.Follows outside moves (entry.onto older) := by
  induction kept generalizing recent with
  | opened => exact absurd written.symm (List.append_ne_nil_of_right_ne_nil _ (List.cons_ne_nil _ _))
  | @outside diary after kept changes ih =>
    cases recent with
    | nil =>
      obtain ⟨rfl, rfl⟩ := List.cons.inj written
      exact ⟨kept, changes⟩
    | cons last recent => exact ih (List.cons.inj written).2
  | @moved diary party after kept made ih =>
    cases recent with
    | nil =>
      obtain ⟨rfl, rfl⟩ := List.cons.inj written
      exact ⟨kept, made⟩
    | cons last recent => exact ih (List.cons.inj written).2

end Kept

end Diary

namespace System

variable {World Call Err α Party : Type} {Answer : Call → Type}

/-- The system that keeps a diary. -/
def recorded (system : System World Call Answer Err α Party) :
    System (Diary World Party) Call Answer Err α Party where
  react party diary request after answer :=
    ∃ world, system.react party diary.now request world answer ∧ after = diary.write (some party) world
  environment diary after := ∃ world, system.environment diary.now world ∧ after = diary.write none world
  starts := system.starts

variable [DecidableEq Party] {system : System World Call Answer Err α Party}

/-- Every run can be recorded. -/
theorem Reaches.recorded {world : World} {pool : Pool World Call Answer Err α Party}
    (run : system.Reaches (System.idle world) pool) :
    ∃ entries, system.recorded.Reaches (System.idle (.opened world)) ⟨⟨pool.world, entries⟩, pool.threads⟩ := by
  induction run with
  | refl => exact ⟨[], .refl⟩
  | @tail middle next before moved ih =>
    obtain ⟨entries, reached⟩ := ih
    cases moved with
    | environment moves => exact ⟨_, reached.tail (.environment ⟨_, moves, rfl⟩)⟩
    | start free begins => exact ⟨entries, reached.tail (.start free begins)⟩
    | serve flight reacts => exact ⟨_, reached.tail (.serve flight ⟨_, reacts, rfl⟩)⟩
    | finish flight done => exact ⟨entries, reached.tail (.finish flight done)⟩

/-- What a recorded run forgets is a run. -/
theorem Reaches.unrecorded {diary : Diary World Party}
    {pool : Pool (Diary World Party) Call Answer Err α Party}
    (run : system.recorded.Reaches (System.idle diary) pool) :
    system.Reaches (System.idle diary.now) ⟨pool.world.now, pool.threads⟩ := by
  induction run with
  | refl => exact .refl
  | @tail middle next before moved ih =>
    cases moved with
    | environment moves =>
      obtain ⟨world, changed, rfl⟩ := moves
      exact ih.tail (.environment changed)
    | start free begins => exact ih.tail (.start free begins)
    | serve flight reacts =>
      obtain ⟨world, served, rfl⟩ := reacts
      exact ih.tail (.serve flight served)
    | finish flight done => exact ih.tail (.finish flight done)

end System

/-- Programs as they see their own exchanges: a call is allowed by those made so far. -/
def transcript {Call : Type} {Answer : Call → Type} (allows : Set (Exchange Call Answer) → Call → Prop)
    (mono : ∀ {known more request}, known ⊆ more → allows known request → allows more request) :
    Evidence Call Answer (Exchange Call Answer) where
  tells request answer := {⟨request, answer⟩}
  allows := allows
  mono := mono

/-- A program that listens: it may make any call, and remembers its exchanges. -/
abbrev listening {Call : Type} {Answer : Call → Type} : Evidence Call Answer (Exchange Call Answer) :=
  transcript (fun _ _ => True) fun _ _ => trivial

namespace System

variable {World Call Err α Party : Type} {Answer : Call → Type}

/-- What makes the parties of a system movers of an abstract one: each program is informed by
its own exchanges, what a party knows stays true, and a call that true exchanges allow is a move. -/
structure Conforms (system : System World Call Answer Err α Party)
    (allows : Party → Set (Exchange Call Answer) → Call → Prop)
    (moves : Diary World Party → Party → World → Prop)
    (holds : Party → Diary World Party → Exchange Call Answer → Prop) : Prop where
  mono : ∀ {party known more request}, known ⊆ more → allows party known request → allows party more request
  informed : ∀ {party program}, system.starts party program →
    program.Informed (transcript (allows party) mono) (fun _ _ => True) ∅
  outside : ∀ {party diary after exchange}, system.environment diary.now after → holds party diary exchange →
    holds party (diary.write none after) exchange
  moved : ∀ {party diary other after exchange}, moves diary other after → holds party diary exchange →
    holds party (diary.write (some other) after) exchange
  step : ∀ {party diary known request after answer}, (∀ exchange ∈ known, holds party diary exchange) →
    allows party known request → system.react party diary.now request after answer →
      moves diary party after ∧ holds party (diary.write (some party) after) ⟨request, answer⟩

namespace Conforms

variable {system : System World Call Answer Err α Party}
  {allows : Party → Set (Exchange Call Answer) → Call → Prop}
  {moves : Diary World Party → Party → World → Prop}
  {holds : Party → Diary World Party → Exchange Call Answer → Prop}

/-- What happens while a party does nothing, or in one of its own steps. -/
inductive Turns (system : System World Call Answer Err α Party)
    (moves : Diary World Party → Party → World → Prop) : Diary World Party → Diary World Party → Prop where
  | outside {diary after} (changes : system.environment diary.now after) :
      Turns system moves diary (diary.write none after)
  | moved {diary party after} (made : moves diary party after) :
      Turns system moves diary (diary.write (some party) after)

theorem holds_later (conforms : system.Conforms allows moves holds) {party : Party}
    {before after : Diary World Party} (later : Relation.ReflTransGen (Turns system moves) before after)
    {exchange : Exchange Call Answer} (held : holds party before exchange) : holds party after exchange := by
  induction later with
  | refl => exact held
  | tail _ turn ih =>
    cases turn with
    | outside changes => exact conforms.outside changes ih
    | moved made => exact conforms.moved made ih

/-- The outline in which every party moves and nobody minds. -/
def outline (conforms : system.Conforms allows moves holds) : system.recorded.Outline where
  rely _ := Relation.ReflTransGen (Turns system moves)
  guarantee party before _ after := ∃ world, moves before party world ∧ after = before.write (some party) world
  ready _ _ := True
  post _ _ _ := True
  reflexive _ _ := .refl
  transitive _ _ _ _ := .trans
  environment := by
    rintro _ world after ⟨next, changes, rfl⟩
    exact .single (.outside changes)
  others := by
    rintro party other _ world request after ⟨next, made, rfl⟩
    exact .single (.moved made)
  stable _ _ _ _ _ := trivial
  safe := by
    intro party program begins world _
    refine (conforms.informed begins).safe (fun exchange diary => holds party diary exchange)
      (fun _ _ => trivial) (fun later _ held => conforms.holds_later later held) ?_ trivial
      (fun exchange member => absurd member (Set.notMem_empty exchange))
    rintro known diary request after answer _ read allowed ⟨next, reacts, rfl⟩
    obtain ⟨made, told⟩ := conforms.step read allowed reacts
    refine ⟨⟨next, made, rfl⟩, trivial, ?_⟩
    rintro exchange (member | rfl)
    · exact conforms.moved made (read exchange member)
    · exact told
  settles _ _ _ _ := trivial

variable [DecidableEq Party]

/-- Every run of the system is a run of the abstract one. -/
theorem kept (conforms : system.Conforms allows moves holds) {start : World}
    {pool : Pool (Diary World Party) Call Answer Err α Party}
    (run : system.recorded.Reaches (System.idle (.opened start)) pool) :
    pool.world.Kept system.environment moves start := by
  have begins : conforms.outline.Holds (System.idle (.opened start)) := fun _ => trivial
  -- what is kept at the start of a stretch is kept at its end
  let related (before after : Diary World Party) : Prop :=
    before.Kept system.environment moves start → after.Kept system.environment moves start
  refine @System.Outline.moves _ _ _ _ _ _ _ _ _ _ _ related (fun _ => id) ?_ ?_ ?_ begins run .opened
  · exact fun earlier later kept => later (earlier kept)
  · rintro diary after ⟨world, changes, rfl⟩ kept
    exact .outside kept changes
  · rintro party diary request after ⟨world, made, rfl⟩ kept
    exact .moved kept made

end Conforms

/-- The exchange is a step that the party has made since the diary was as given. -/
def Made (system : System World Call Answer Err α Party) (party : Party) (base diary : Diary World Party)
    (exchange : Exchange Call Answer) : Prop :=
  ∃ entry, base.Since diary entry ∧ entry.author = some party ∧
    system.react party entry.before exchange.1 entry.after exchange.2

variable {system : System World Call Answer Err α Party}

theorem Made.write {party : Party} {base diary : Diary World Party} {author : Option Party} {after : World}
    {exchange : Exchange Call Answer} (made : system.Made party base diary exchange) :
    system.Made party base (diary.write author after) exchange := by
  obtain ⟨entry, since, rest⟩ := made
  exact ⟨entry, since.write, rest⟩

variable [DecidableEq Party]

/-- What a party has heard by the time it is as it is, it has heard since it was last idle. -/
theorem Reaches.heard {party : Party} {returns : Set (Exchange Call Answer) → α → Prop}
    (informed : ∀ program, system.starts party program → program.Informed listening returns ∅)
    {pool last : Pool (Diary World Party) Call Answer Err α Party} (idle : pool.threads party = none)
    (run : system.recorded.Reaches pool last) : pool.world.Continues last.world ∧
      ∀ rest, last.threads party = some rest → ∃ known, rest.Informed listening returns known ∧
        ∀ exchange ∈ known, system.Made party pool.world last.world exchange := by
  induction run with
  | refl =>
    refine ⟨.refl _, fun rest flight => ?_⟩
    rw [idle] at flight
    cases flight
  | @tail middle next before moved ih =>
    obtain ⟨continued, heard⟩ := ih
    cases moved with
    | environment moves =>
      obtain ⟨world, changed, rfl⟩ := moves
      refine ⟨continued.write, fun rest flight => ?_⟩
      obtain ⟨known, knows, made⟩ := heard rest flight
      exact ⟨known, knows, fun exchange member => (made exchange member).write⟩
    | @start world threads other program free begins =>
      refine ⟨continued, fun rest flight => ?_⟩
      by_cases same : party = other
      · subst same
        obtain rfl : program = rest := by simpa using flight
        exact ⟨∅, informed program begins, fun exchange member => absurd member (Set.notMem_empty exchange)⟩
      · exact heard rest (by simpa [Function.update_of_ne same] using flight)
    | @serve diary threads other request next after answer flying reacts =>
      obtain ⟨world, served, rfl⟩ := reacts
      refine ⟨continued.write, fun rest flight => ?_⟩
      by_cases same : party = other
      · subst same
        obtain rfl : next answer = rest := by simpa using flight
        obtain ⟨known, knows, made⟩ := heard _ flying
        refine ⟨_, knows.2 answer, ?_⟩
        rintro exchange (member | rfl)
        · exact (made exchange member).write
        · exact ⟨_, continued.since, rfl, served⟩
      · obtain ⟨known, knows, made⟩ := heard rest (by simpa [Function.update_of_ne same] using flight)
        exact ⟨known, knows, fun exchange member => (made exchange member).write⟩
    | @finish world threads other program flying done =>
      refine ⟨continued, fun rest flight => ?_⟩
      by_cases same : party = other
      · subst same
        simp at flight
      · exact heard rest (by simpa [Function.update_of_ne same] using flight)

/-- A value that a party returns is one that it may return after what it has heard. -/
theorem Reaches.returned {party : Party} {returns : Set (Exchange Call Answer) → α → Prop}
    (informed : ∀ program, system.starts party program → program.Informed listening returns ∅)
    {pool last : Pool (Diary World Party) Call Answer Err α Party} (idle : pool.threads party = none)
    (run : system.recorded.Reaches pool last) {value : α} (answered : last.threads party = some (.ret value)) :
    ∃ known, returns known value ∧ ∀ exchange ∈ known, system.Made party pool.world last.world exchange := by
  obtain ⟨_, heard⟩ := run.heard informed idle
  exact heard _ answered

end System

end Configurator
