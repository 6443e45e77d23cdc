import DiceNotation.Session
import DiceNotation.Main
import DiceNotation.Proofs.Places
import DiceNotation.Proofs.Cut
import DiceNotation.Proofs.PlainSum
import DiceNotation.Proofs.Agreement
import DiceNotation.Proofs.Normal
import DiceNotation.Proofs.Writing
import DiceNotation.Proofs.Scan
import DiceNotation.Proofs.Words
import DiceNotation.Proofs.Separators
import DiceNotation.Proofs.Foreign
import DiceNotation.Proofs.OnePass
import DiceNotation.Proofs.Placement
import DiceNotation.Proofs.Beginnings
import DiceNotation.Proofs.Totals
import DiceNotation.Proofs.OneSubtotal
import DiceNotation.Proofs.ExactTotals
import DiceNotation.Proofs.Sessions
import DiceNotation.Proofs.Joining
import DiceNotation.Proofs.Unambiguous
import DiceNotation.Proofs.Journals
import DiceNotation.Proofs.Replay
import DiceNotation.Proofs.Forecast
import DiceNotation.Proofs.Delivery
import DiceNotation.Proofs.RealDice
import DiceNotation.Proofs.Fairness
