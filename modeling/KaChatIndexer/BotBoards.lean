import KaChatIndexer.BotGames
import KaChatIndexer.ChessDraws

/-!
# The boards of the bots

What the boards show, told from the rows: which rows count, when a counted row is a win by the laws of
chess, and which win of a player a board lists.
-/
namespace KaChatIndexer.BotBoards
open ByteStrings ChessPieces ChessEngine ChessLaws ChessGames ChessMoves ChessSuccessor ChessLegality
open ChessDraws ArenaState ArenaReduce KeyedChoice BotGames
open KaText (Text)

/-! ## Replays by the laws -/

/-- A pawn that reaches the last rank becomes a queen if the move names no piece. -/
def asPlayed (pos : Position) (m : Move) : Move :=
  match m.promotion, pieceOn pos.men m.source with
  | none, some p =>
    if p.pieceType = .pawn ∧ m.target.rank = lastRank p.color then { m with promotion := some .queen } else m
  | _, _ => m

/-- The moves that the tokens name are legal one after the other and lead to a position. -/
inductive Replay : List Text → Position → Prop
  | start : Replay [] start
  | move {tokens : List Text} {pos pos' : Position} {token : Text} {m : Move} (h : Replay tokens pos)
      (hread : readMove token = some m) (hlegal : Legal pos (asPlayed pos m) pos') :
      Replay (tokens ++ [token]) pos'

/-- The moves of a text mate the opponent of a player. -/
def MatesIn (player : Color) (m : Text) (moves : ℕ) : Prop :=
  ∃ pos, Replay (splitWhitespace m) pos ∧ Mate pos ∧ pos.turn = player.opposite ∧
    moves = ownMoves player (splitWhitespace m).length

section
variable {b : Board} {pos : Position} {tokens : List Text}

theorem normalizing_asPlayed (h : Shows b pos) (m : Move) : normalizingPromotion m b = asPlayed pos m := by
  unfold normalizingPromotion asPlayed
  rw [h.men]
  have hrank (c : Color) : (if c = .white then (7 : ℤ) else 0) = lastRank c := by cases c <;> rfl
  cases m.promotion with
  | some type => rfl
  | none =>
    cases pieceOn pos.men m.source with
    | none => rfl
    | some p => simp only [Option.isSome_none, Bool.false_eq_true, if_false, hrank]

theorem Replay.sound (h : Replay tokens pos) : Sound pos := by
  induction h with
  | start => exact start_sound
  | move _ _ hlegal ih => exact ih.next hlegal

/-! ## The replay of the code -/

theorem replayFrom_snoc (board : LiveBoard) (plies : ℕ) (tokens : List Text) (token : Text) :
    replayFrom board plies (tokens ++ [token]) =
      (replayFrom board plies tokens).bind fun r => replayFrom r.1 r.2 [token] := by
  induction tokens generalizing board plies with
  | nil => rfl
  | cons t rest ih =>
    rw [List.cons_append, replayFrom, replayFrom]
    cases readMove t with
    | none => rfl
    | some mv =>
      dsimp only
      split
      · exact ih _ _
      · rfl

theorem replayFrom_plies {board board' : LiveBoard} {plies plies' : ℕ} {tokens : List Text}
    (h : replayFrom board plies tokens = some (board', plies')) : plies' = plies + tokens.length := by
  induction tokens generalizing board plies with
  | nil => exact (congrArg Prod.snd (Option.some.inj h)).symm
  | cons t rest ih =>
    unfold replayFrom at h
    split at h
    · cases h
    · split at h
      · rw [ih h, List.length_cons]
        omega
      · cases h

theorem isLegal_iff {board : LiveBoard} (h : Shows board.1 pos) (hsound : Sound pos) (m : Move) :
    board.isLegal (normalizingPromotion m board.1) = true ↔ ∃ pos', Legal pos (asPlayed pos m) pos' := by
  have hlegal := ChessLegality.isLegal_iff h hsound (normalizingPromotion m board.1)
  rw [LiveBoard.normalizing_idem, LiveBoard.isLegal_eq, Option.some.injEq, normalizing_asPlayed h] at hlegal
  rw [normalizing_asPlayed h]
  exact hlegal

theorem play_shows {board : LiveBoard} {m : Move} {pos' : Position} (h : Shows board.1 pos)
    (hsound : Sound pos) (hm : m ∈ board.moves) (hlegal : Legal pos m pos') :
    Shows (board.play m hm).1 pos' := by
  obtain ⟨r, hr, hshows⟩ := shows_plays h hsound hlegal.1
  have hplay : (board.play m hm).1 = r := by
    unfold LiveBoard.play
    simp only [hr, Option.get_some]
  exact hplay ▸ hshows

/-- What the code replays is a game by the laws. -/
theorem replay_of_some {board : LiveBoard} {plies : ℕ}
    (h : replayFrom .new 0 tokens = some (board, plies)) : ∃ pos, Replay tokens pos ∧ Shows board.1 pos := by
  induction tokens using List.reverseRecOn generalizing board plies with
  | nil =>
    obtain rfl : LiveBoard.new = board := congrArg Prod.fst (Option.some.inj h)
    exact ⟨start, .start, start_shows⟩
  | append_singleton tokens token ih =>
    rw [replayFrom_snoc] at h
    obtain ⟨⟨before, n⟩, hbefore, hlast⟩ := Option.bind_eq_some_iff.mp h
    obtain ⟨pos, hreplay, hshows⟩ := ih hbefore
    unfold replayFrom at hlast
    split at hlast
    · cases hlast
    · next mv hread =>
      split at hlast
      · next hmove =>
        obtain ⟨pos', hlegal⟩ := (isLegal_iff hshows hreplay.sound mv).mp hmove
        refine ⟨pos', hreplay.move hread hlegal, ?_⟩
        obtain rfl := congrArg Prod.fst (Option.some.inj hlast)
        exact play_shows hshows hreplay.sound (LiveBoard.mem_moves hmove)
          (normalizing_asPlayed hshows mv ▸ hlegal)
      · cases hlast

/-- A game by the laws is what the code replays. -/
theorem Replay.replayed (h : Replay tokens pos) :
    ∃ board, replayFrom .new 0 tokens = some (board, tokens.length) ∧ Shows board.1 pos := by
  induction h with
  | start => exact ⟨.new, rfl, start_shows⟩
  | @move tokens pos pos' token m hreplay hread hlegal ih =>
    obtain ⟨board, hboard, hshows⟩ := ih
    have hmove := (isLegal_iff hshows hreplay.sound m).mpr ⟨pos', hlegal⟩
    refine ⟨board.play _ (LiveBoard.mem_moves hmove), ?_,
      play_shows hshows hreplay.sound _ (normalizing_asPlayed hshows m ▸ hlegal)⟩
    rw [replayFrom_snoc, hboard, List.length_append]
    simp only [Option.bind_some, replayFrom, hread, List.length_singleton]
    rw [dif_pos hmove]

theorem live_checkmate {board : LiveBoard} (h : Shows board.1 pos) (hsound : Sound pos) :
    board.isCheckmate = true ↔ Mate pos := by
  obtain ⟨mate, hmate, hiff⟩ := isCheckmate_spec h hsound
  have heq : isCheckmate board.1 = some board.isCheckmate := by
    simp only [ChessEngine.isCheckmate, LiveBoard.moves_eq, Option.bind_eq_bind, Option.bind_some,
      Option.pure_def, LiveBoard.isCheckmate]
  rw [heq] at hmate
  rw [Option.some.inj hmate, hiff]

end

/-! ## Counted rows and wins -/

/-- The row is the first, in chain order, of its sender and game id. -/
def IsFirst (env : BotEnv) (rows : List ArenaRow) (row : ArenaRow) : Prop :=
  row ∈ rows ∧ ∃ key, gameKey env row = some key ∧
    ∀ row' ∈ rows, gameKey env row' = some key → rowTime row ≤ rowTime row'

/-- A row that counts for a bot and a period: its fields are valid and its moves are legal. -/
structure Counts (env : BotEnv) (rows : List ArenaRow) (level : Int64) (sinceMs : ℤ) (row : ArenaRow)
    (message : BotResultMessage) : Prop where
  first : IsFirst env rows row
  decoded : decodeBotResult env row.content = some message
  player : (playerOf message.c).isSome
  fields : validFields message = true
  legal : ∃ pos, Replay (splitWhitespace message.m) pos
  level : message.bot = level
  since : sinceMs ≤ row.blockTime.toInt

/-- A win that counts for a bot and a period, as a board lists it. -/
def Win (env : BotEnv) (rows : List ArenaRow) (level : Int64) (sinceMs : ℤ) (r : BotBoardRow) : Prop :=
  ∃ row message player, Counts env rows level sinceMs row message ∧ message.r = "won".toList ∧
    message.why = "checkmate".toList ∧ playerOf message.c = some player ∧
    MatesIn player message.m r.moves ∧ r = ⟨row.sender, r.moves, row.blockTime, message.g, row.txId⟩

/-- The best win of its player: of the fewest moves, then the earliest. -/
def BestWin (env : BotEnv) (rows : List ArenaRow) (level : Int64) (sinceMs : ℤ) (r : BotBoardRow) :
    Prop :=
  Win env rows level sinceMs r ∧
    ∀ r', Win env rows level sinceMs r' → r'.address = r.address → r.rank ≤ r'.rank

structure BoardExact (env : BotEnv) (rows : List ArenaRow) (sinceMs : ℤ) (board : BotBoard) : Prop where
  games : ∃ counted : List ArenaRow, counted.Nodup ∧
    (∀ row, row ∈ counted ↔ ∃ message, Counts env rows board.level sinceMs row message) ∧
    board.games = counted.length
  players : ∀ r, r ∈ board.players ↔ BestWin env rows board.level sinceMs r
  once : (board.players.map BotBoardRow.address).Nodup
  sorted : board.players.Pairwise fun a b => a.rank < b.rank

section
variable {env : BotEnv} {rows : List ArenaRow} {row : ArenaRow} {message : BotResultMessage}
  {game : BotGame} {level : Int64} {sinceMs : ℤ} {n : ℕ} {r : BotBoardRow}

theorem botGame_iff : botGame row message = some game ↔
    ∃ player board plies, playerOf message.c = some player ∧ validFields message = true ∧
      replayBotMoves message.m = some (board, plies) ∧
      game = ⟨message.bot, row.sender, row.txId, row.blockTime, message.g,
        if (decide (message.r = "won".toList) && decide (message.why = "checkmate".toList) &&
            (decide (board.1.sideToMove = player.opposite) && board.isCheckmate)) = true
          then some (ownMoves player plies) else none⟩ := by
  unfold botGame
  simp only [Option.bind_eq_bind, Option.bind_eq_some_iff, Option.guard_eq_some', Option.pure_def,
    Option.some.injEq, Prod.exists, eq_comm (a := game)]
  constructor
  · rintro ⟨player, hplayer, -, hfields, board, plies, hreplay, hgame⟩
    exact ⟨player, board, plies, hplayer, hfields, hreplay, hgame⟩
  · rintro ⟨player, board, plies, hplayer, hfields, hreplay, hgame⟩
    exact ⟨player, hplayer, (), hfields, board, plies, hreplay, hgame⟩

/-- A game comes of each row with valid fields and legal moves. -/
theorem botGame_isSome : (botGame row message).isSome ↔ (playerOf message.c).isSome ∧
    validFields message = true ∧ ∃ pos, Replay (splitWhitespace message.m) pos := by
  simp only [Option.isSome_iff_exists, botGame_iff]
  constructor
  · rintro ⟨_, player, board, plies, hplayer, hfields, hreplay, -⟩
    obtain ⟨pos, hpos, -⟩ := replay_of_some hreplay
    exact ⟨⟨player, hplayer⟩, hfields, pos, hpos⟩
  · rintro ⟨⟨player, hplayer⟩, hfields, pos, hpos⟩
    obtain ⟨board, hboard, -⟩ := hpos.replayed
    exact ⟨_, player, board, _, hplayer, hfields, hboard, rfl⟩

theorem matesIn_iff {player : Color} {m : Text} {board : LiveBoard} {plies : ℕ}
    (h : replayBotMoves m = some (board, plies)) : MatesIn player m n ↔
      (board.1.sideToMove = player.opposite ∧ board.isCheckmate = true) ∧ n = ownMoves player plies := by
  obtain rfl : plies = (splitWhitespace m).length := by
    rw [replayFrom_plies h, Nat.zero_add]
  constructor
  · rintro ⟨pos, hpos, hmate, hturn, hmoves⟩
    obtain ⟨board', hboard, hshows⟩ := hpos.replayed
    obtain rfl : board = board' := congrArg Prod.fst (Option.some.inj (h.symm.trans hboard))
    exact ⟨⟨hshows.turn.trans hturn, (live_checkmate hshows hpos.sound).mpr hmate⟩, hmoves⟩
  · rintro ⟨⟨hturn, hmate⟩, hmoves⟩
    obtain ⟨pos, hpos, hshows⟩ := replay_of_some h
    exact ⟨pos, hpos, (live_checkmate hshows hpos.sound).mp hmate, hshows.turn.symm.trans hturn, hmoves⟩

theorem botGame_fields (h : botGame row message = some game) :
    game.level = message.bot ∧ game.blockTime = row.blockTime := by
  obtain ⟨player, board, plies, hplayer, hfields, hreplay, rfl⟩ := botGame_iff.mp h
  exact ⟨rfl, rfl⟩

/-- The game is a win as the laws tell. -/
theorem winRow_iff (h : botGame row message = some game) :
    winRow game = some r ↔ ∃ player, message.r = "won".toList ∧ message.why = "checkmate".toList ∧
      playerOf message.c = some player ∧ MatesIn player message.m r.moves ∧
      r = ⟨row.sender, r.moves, row.blockTime, message.g, row.txId⟩ := by
  obtain ⟨player, board, plies, hplayer, hfields, hreplay, rfl⟩ := botGame_iff.mp h
  unfold winRow
  simp only [Option.map_eq_some_iff, hplayer, Option.some.injEq, matesIn_iff hreplay]
  constructor
  · rintro ⟨moves, hmoves, rfl⟩
    split_ifs at hmoves with hwon
    simp only [Bool.and_eq_true, decide_eq_true_eq] at hwon
    exact ⟨player, hwon.1.1, hwon.1.2, rfl, ⟨hwon.2, (Option.some.inj hmoves).symm⟩, rfl⟩
  · rintro ⟨_, hwon, hwhy, rfl, ⟨hmated, hmoves⟩, hr⟩
    refine ⟨r.moves, ?_, hr.symm⟩
    rw [if_pos (by simp only [Bool.and_eq_true, decide_eq_true_eq]; exact ⟨⟨hwon, hwhy⟩, hmated⟩), hmoves]

/-! ## The rows in chain order -/

theorem rowTime_txId {a b : ArenaRow} (h : rowTime a = rowTime b) : a.txId = b.txId := by
  have hmap : a.txId.map UInt8.toNat = b.txId.map UInt8.toNat := congrArg (fun key => (ofLex key).2) h
  exact List.map_injective_iff.mpr (fun _ _ => UInt8.toNat_inj.mp) hmap

theorem mem_chainOrder : row ∈ chainOrder rows ↔ row ∈ rows := (List.perm_insertionSort _ _).mem_iff

/-- Distinct transactions stand in a strict order. -/
theorem chainOrder_pairwise (hids : (rows.map ArenaRow.txId).Nodup) :
    (chainOrder rows).Pairwise fun a b => rowTime a < rowTime b := by
  have hperm : (chainOrder rows).Perm rows := List.perm_insertionSort _ _
  have hnodup : ((chainOrder rows).map ArenaRow.txId).Nodup := (hperm.map _).nodup_iff.mpr hids
  have hle : (chainOrder rows).Pairwise fun a b => rowTime a ≤ rowTime b :=
    List.pairwise_insertionSort _ _
  refine (hle.and (List.pairwise_map.mp hnodup)).imp fun {a b} h => ?_
  exact lt_of_le_of_ne h.1 fun heq => h.2 (rowTime_txId heq)

theorem chainOrder_congr {rows' : List ArenaRow} (hids : (rows.map ArenaRow.txId).Nodup)
    (hperm : rows.Perm rows') : chainOrder rows' = chainOrder rows := by
  have hids' : (rows'.map ArenaRow.txId).Nodup := (hperm.map _).nodup_iff.mp hids
  refine List.Perm.eq_of_pairwise (fun a b _ _ hab hba => absurd hba (not_lt.mpr hab.le))
    (chainOrder_pairwise hids') (chainOrder_pairwise hids) ?_
  exact (List.perm_insertionSort _ _).trans (hperm.symm.trans (List.perm_insertionSort _ _).symm)

/-- The rows that the replay looks at. -/
def firstRows (env : BotEnv) (rows : List ArenaRow) : List ArenaRow :=
  firsts (gameKey env) [] (chainOrder rows)

theorem mem_firstRows (hids : (rows.map ArenaRow.txId).Nodup) :
    row ∈ firstRows env rows ↔ IsFirst env rows row := by
  unfold firstRows IsFirst
  rw [mem_firsts (chainOrder_pairwise hids) []]
  simp only [mem_chainOrder, List.not_mem_nil, not_false_eq_true, true_and]

theorem firstRows_pairwise (hids : (rows.map ArenaRow.txId).Nodup) :
    (firstRows env rows).Pairwise fun a b => rowTime a < rowTime b :=
  (chainOrder_pairwise hids).sublist (firsts_sublist _ _ _)

/-- The game of a row that counts for a bot and a period. -/
def countedGame (env : BotEnv) (level : Int64) (sinceMs : ℤ) (row : ArenaRow) : Option BotGame :=
  (gameOf env row).filter fun g => g.level = level ∧ sinceMs ≤ g.blockTime.toInt

theorem countedGame_iff : countedGame env level sinceMs row = some game ↔
    ∃ message, decodeBotResult env row.content = some message ∧ botGame row message = some game ∧
      message.bot = level ∧ sinceMs ≤ row.blockTime.toInt := by
  unfold countedGame gameOf
  simp only [Option.filter_eq_some_iff, Option.bind_eq_some_iff, decide_eq_true_eq]
  constructor
  · rintro ⟨⟨message, hdecoded, hgame⟩, hlevel, hsince⟩
    obtain ⟨hbot, htime⟩ := botGame_fields hgame
    exact ⟨message, hdecoded, hgame, hbot ▸ hlevel, htime ▸ hsince⟩
  · rintro ⟨message, hdecoded, hgame, hlevel, hsince⟩
    obtain ⟨hbot, htime⟩ := botGame_fields hgame
    exact ⟨⟨message, hdecoded, hgame⟩, hbot.trans hlevel, htime ▸ hsince⟩

theorem counts_iff : (∃ message, Counts env rows level sinceMs row message) ↔
    IsFirst env rows row ∧ (countedGame env level sinceMs row).isSome := by
  simp only [Option.isSome_iff_exists, countedGame_iff]
  constructor
  · rintro ⟨message, h⟩
    obtain ⟨game, hgame⟩ := Option.isSome_iff_exists.mp (botGame_isSome.mpr ⟨h.player, h.fields, h.legal⟩)
    exact ⟨h.first, game, message, h.decoded, hgame, h.level, h.since⟩
  · rintro ⟨hfirst, game, message, hdecoded, hgame, hlevel, hsince⟩
    obtain ⟨hplayer, hfields, hlegal⟩ := botGame_isSome.mp (Option.isSome_of_mem hgame)
    exact ⟨message, hfirst, hdecoded, hplayer, hfields, hlegal, hlevel, hsince⟩

theorem played_eq (env : BotEnv) (rows : List ArenaRow) (level : Int64) (sinceMs : ℤ) :
    ((botGames env rows).filter fun g => g.level = level ∧ sinceMs ≤ g.blockTime.toInt) =
      (firstRows env rows).filterMap (countedGame env level sinceMs) := by
  unfold botGames
  rw [List.filter_filterMap]
  rfl

/-- The wins against a bot in a period, in chain order. -/
def winRows (env : BotEnv) (rows : List ArenaRow) (level : Int64) (sinceMs : ℤ) : List BotBoardRow :=
  (firstRows env rows).filterMap fun row => (countedGame env level sinceMs row).bind winRow

theorem rowWin_iff : ((countedGame env level sinceMs row).bind winRow = some r ∧ IsFirst env rows row) ↔
    ∃ message player, Counts env rows level sinceMs row message ∧ message.r = "won".toList ∧
      message.why = "checkmate".toList ∧ playerOf message.c = some player ∧
      MatesIn player message.m r.moves ∧ r = ⟨row.sender, r.moves, row.blockTime, message.g, row.txId⟩ := by
  simp only [Option.bind_eq_some_iff, countedGame_iff]
  constructor
  · rintro ⟨⟨game, ⟨message, hdecoded, hgame, hlevel, hsince⟩, hwin⟩, hfirst⟩
    obtain ⟨player, hwin⟩ := (winRow_iff hgame).mp hwin
    obtain ⟨hplayer, hfields, hlegal⟩ := botGame_isSome.mp (Option.isSome_of_mem hgame)
    exact ⟨message, player, ⟨hfirst, hdecoded, hplayer, hfields, hlegal, hlevel, hsince⟩, hwin⟩
  · rintro ⟨message, player, h, hwin⟩
    obtain ⟨game, hgame⟩ := Option.isSome_iff_exists.mp (botGame_isSome.mpr ⟨h.player, h.fields, h.legal⟩)
    exact ⟨⟨game, ⟨message, h.decoded, hgame, h.level, h.since⟩, (winRow_iff hgame).mpr ⟨player, hwin⟩⟩,
      h.first⟩

theorem mem_winRows (hids : (rows.map ArenaRow.txId).Nodup) :
    r ∈ winRows env rows level sinceMs ↔ Win env rows level sinceMs r := by
  unfold winRows Win
  rw [List.mem_filterMap]
  refine exists_congr fun row => ?_
  rw [mem_firstRows hids, and_comm, rowWin_iff]

theorem winRow_time (h : (countedGame env level sinceMs row).bind winRow = some r) :
    r.time = rowTime row := by
  obtain ⟨game, hgame, hwin⟩ := Option.bind_eq_some_iff.mp h
  obtain ⟨message, -, hgame, -⟩ := countedGame_iff.mp hgame
  obtain ⟨_, -, -, -, -, hr⟩ := (winRow_iff hgame).mp hwin
  rw [hr]
  rfl

theorem winRows_pairwise (hids : (rows.map ArenaRow.txId).Nodup) :
    (winRows env rows level sinceMs).Pairwise fun a b => a.time < b.time := by
  unfold winRows
  rw [List.pairwise_filterMap]
  refine (firstRows_pairwise hids).imp fun {a b} hlt r hr r' hr' => ?_
  rw [winRow_time hr, winRow_time hr']
  exact hlt

/-- The row of a board shows the best win of its player. -/
theorem mem_best (hids : (rows.map ArenaRow.txId).Nodup) :
    r ∈ bests BotBoardRow.address BotBoardRow.moves (winRows env rows level sinceMs) ↔
      BestWin env rows level sinceMs r := by
  rw [mem_bests (winRows_pairwise hids)]
  unfold IsBest BestWin
  simp only [mem_winRows hids]
  rfl

/-- No two rows of a board rank alike. -/
theorem best_sorted (hids : (rows.map ArenaRow.txId).Nodup) :
    ((bests BotBoardRow.address BotBoardRow.moves (winRows env rows level sinceMs)).insertionSort
      fun a b => a.rank ≤ b.rank).Pairwise fun a b => a.rank < b.rank := by
  have hperm := List.perm_insertionSort (fun a b : BotBoardRow => a.rank ≤ b.rank)
    (bests BotBoardRow.address BotBoardRow.moves (winRows env rows level sinceMs))
  have hnodup := hperm.nodup_iff.mpr
    (List.Nodup.of_map BotBoardRow.address (bests_owners (winRows env rows level sinceMs)))
  have htimes : ((winRows env rows level sinceMs).map BotBoardRow.time).Nodup :=
    List.pairwise_map.mpr ((winRows_pairwise hids).imp fun h => h.ne)
  have hwin {r : BotBoardRow} (hr : r ∈ (bests BotBoardRow.address BotBoardRow.moves
      (winRows env rows level sinceMs)).insertionSort fun a b => a.rank ≤ b.rank) :
      r ∈ winRows env rows level sinceMs :=
    (mem_winRows hids).mpr ((mem_best hids).mp (hperm.mem_iff.mp hr)).1
  refine List.Pairwise.imp_of_mem (fun {a b} ha hb h => ?_)
    ((List.pairwise_insertionSort (fun a b : BotBoardRow => a.rank ≤ b.rank) _).and hnodup)
  refine lt_of_le_of_ne h.1 fun heq => h.2 ?_
  have htime : a.time = b.time := congrArg (fun rank => (ofLex rank).2) heq
  exact List.inj_on_of_nodup_map htimes (hwin ha) (hwin hb) htime

theorem mem_botBoards {board : BotBoard} : board ∈ botBoards (botGames env rows) sinceMs ↔
    board.level ∈ botLevels ∧
      (firstRows env rows).filterMap (countedGame env board.level sinceMs) ≠ [] ∧
      board = ⟨board.level, ((firstRows env rows).filterMap (countedGame env board.level sinceMs)).length,
        (bests BotBoardRow.address BotBoardRow.moves
          (winRows env rows board.level sinceMs)).insertionSort fun a b => a.rank ≤ b.rank⟩ := by
  unfold botBoards
  simp only [List.mem_filterMap, played_eq, List.filterMap_filterMap]
  constructor
  · rintro ⟨level, hlevel, hboard⟩
    split_ifs at hboard with hempty
    obtain rfl := Option.some.inj hboard
    exact ⟨hlevel, fun hnil => hempty (by rw [hnil]; rfl), rfl⟩
  · rintro ⟨hlevel, hplayed, hboard⟩
    refine ⟨board.level, hlevel, ?_⟩
    rw [if_neg (by rwa [List.isEmpty_iff])]
    exact congrArg some hboard.symm

/-- The bots that were played have a board. -/
theorem levels_eq (env : BotEnv) (rows : List ArenaRow) (sinceMs : ℤ) :
    (botBoards (botGames env rows) sinceMs).map BotBoard.level = botLevels.filter fun level =>
      !((firstRows env rows).filterMap (countedGame env level sinceMs)).isEmpty := by
  unfold botBoards
  rw [List.map_filterMap, ← List.filterMap_eq_filter]
  refine List.filterMap_congr fun level _ => ?_
  dsimp only
  rw [played_eq, Option.guard]
  split_ifs with hempty hplayed hplayed
  · rw [hempty] at hplayed
    cases hplayed
  · rfl
  · rfl
  · exact absurd (by simpa using hempty) hplayed

theorem board_exact (hids : (rows.map ArenaRow.txId).Nodup) {board : BotBoard}
    (h : board ∈ botBoards (botGames env rows) sinceMs) : BoardExact env rows sinceMs board := by
  obtain ⟨-, -, hboard⟩ := mem_botBoards.mp h
  have hgames := congrArg BotBoard.games hboard
  have hplayers := congrArg BotBoard.players hboard
  dsimp only at hgames hplayers
  have hperm := List.perm_insertionSort (fun a b : BotBoardRow => a.rank ≤ b.rank)
    (bests BotBoardRow.address BotBoardRow.moves (winRows env rows board.level sinceMs))
  refine ⟨⟨(firstRows env rows).filter fun row => (countedGame env board.level sinceMs row).isSome,
    ?_, fun row => ?_, ?_⟩, fun r => ?_, ?_, ?_⟩
  · have hnodup : (firstRows env rows).Nodup := (firstRows_pairwise hids).imp fun {a b} hlt heq =>
      hlt.ne (congrArg rowTime heq)
    exact hnodup.filter _
  · rw [List.mem_filter, mem_firstRows hids, counts_iff]
  · rw [hgames, List.length_filterMap_eq_countP, List.countP_eq_length_filter]
  · rw [hplayers, hperm.mem_iff, mem_best hids]
  · rw [hplayers]
    exact (hperm.map _).nodup_iff.mpr (bests_owners _)
  · rw [hplayers]
    exact best_sorted hids

end

/-- The boards tell the counted games and the best win of each player, whatever the order of the
rows. -/
theorem boards_exact (env : BotEnv) {rows : List ArenaRow} (hids : (rows.map ArenaRow.txId).Nodup)
    (sinceMs : ℤ) :
    ((botBoards (botGames env rows) sinceMs).map BotBoard.level).Sublist botLevels ∧
    (∀ level, level ∈ (botBoards (botGames env rows) sinceMs).map BotBoard.level ↔
      level ∈ botLevels ∧ ∃ row message, Counts env rows level sinceMs row message) ∧
    (∀ board ∈ botBoards (botGames env rows) sinceMs, BoardExact env rows sinceMs board) ∧
    ∀ rows', rows.Perm rows' →
      botBoards (botGames env rows') sinceMs = botBoards (botGames env rows) sinceMs := by
  refine ⟨?_, fun level => ?_, fun board => board_exact hids, fun rows' hperm => ?_⟩
  · rw [levels_eq]
    exact List.filter_sublist
  · rw [levels_eq, List.mem_filter, Bool.not_eq_true', List.isEmpty_eq_false_iff_exists_mem]
    refine and_congr_right fun _ => ?_
    simp only [List.mem_filterMap, counts_iff, mem_firstRows hids, Option.isSome_iff_exists]
    constructor
    · rintro ⟨game, row, hfirst, hgame⟩
      exact ⟨row, hfirst, game, hgame⟩
    · rintro ⟨row, hfirst, game, hgame⟩
      exact ⟨game, row, hfirst, hgame⟩
  · unfold botGames
    rw [chainOrder_congr hids hperm]

/-- A game that the player gave up after the first move; the content begins with its game id. -/
def givenUp : BotEnv where
  fromStr content := some
    { msgType := "chess_bot".toList, v := 2, a := "result".toList,
      g := "00000000-0000-0000-0000-00000000000".toList ++ [Char.ofNat (content.getLastD 0).toNat],
      bot := 3, c := "w".toList, r := "lost".toList, why := "resignation".toList, m := "e2e4".toList }

def givenUpRows : List ArenaRow :=
  [⟨ascii "b", ascii "alice", 7, ascii "\x7b\"chess_bot\"1"⟩,
    ⟨ascii "a", ascii "alice", 5, ascii "\x7b\"chess_bot\"2"⟩,
    ⟨ascii "c", ascii "alice", 6, ascii "\x7b\"chess_bot\"2"⟩]

theorem givenUp_board : ∃ board ∈ botBoards (botGames givenUp givenUpRows) 0,
    BoardExact givenUp givenUpRows 0 board ∧ board.games = 2 ∧ board.players = [] := by
  have hids : (givenUpRows.map ArenaRow.txId).Nodup := by decide
  have hboards : botBoards (botGames givenUp givenUpRows) 0 = [⟨3, 2, []⟩] := by decide +kernel
  have hmem : ⟨3, 2, []⟩ ∈ botBoards (botGames givenUp givenUpRows) 0 := by
    rw [hboards]
    exact List.mem_singleton_self _
  exact ⟨_, hmem, (boards_exact givenUp hids 0).2.2.1 _ hmem, rfl, rfl⟩

end KaChatIndexer.BotBoards
