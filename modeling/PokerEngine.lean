import PokerEngine.Combination
import PokerEngine.DeckFacts
import PokerEngine.CleanUp
import PokerEngine.Matching
import PokerEngine.Embedding
import PokerEngine.Locks
import PokerEngine.Shutdown
import PokerEngine.Ownership
import PokerEngine.Closure
import PokerEngine.Progress
import PokerEngine.Renaming
import PokerEngine.StraightFlush
import PokerEngine.RankCounts
import PokerEngine.CloseEvent
import PokerEngine.Labels
import PokerEngine.ScopedObservation
import PokerEngine.Wait
import PokerEngine.SortedVector
import PokerEngine.Game
import PokerEngine.CardSerializer
import PokerEngine.IndexedHandEvaluator
import PokerEngine.Streaks
import PokerEngine.Faults
import PokerEngine.Variant
import PokerEngine.Response
import PokerEngine.LobbyMonitor
import PokerEngine.MessageRuns
import PokerEngine.DealtHand
import PokerEngine.Sections
import PokerEngine.OwnSteps
import PokerEngine.GameRuns
