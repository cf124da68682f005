import Dialectic.Apx.Writer
import Dialectic.Audit.Exhibit
import Dialectic.Proofs.Agreement
import Dialectic.Proofs.Answers
import Dialectic.Proofs.Blanks
import Dialectic.Proofs.Canonical
import Dialectic.Proofs.Commitment
import Dialectic.Proofs.Copies
import Dialectic.Proofs.Decoding
import Dialectic.Proofs.Entries
import Dialectic.Proofs.Fingerprints
import Dialectic.Proofs.Floats
import Dialectic.Proofs.Freshness
import Dialectic.Proofs.Grammar
import Dialectic.Proofs.Grounded
import Dialectic.Proofs.History
import Dialectic.Proofs.InStep
import Dialectic.Proofs.Injectivity
import Dialectic.Proofs.LastLine
import Dialectic.Proofs.LogFile
import Dialectic.Proofs.LostLines
import Dialectic.Proofs.Meanings
import Dialectic.Proofs.Objects
import Dialectic.Proofs.OpenTexts
import Dialectic.Proofs.OwnFormula
import Dialectic.Proofs.Parts
import Dialectic.Proofs.ReadBack
import Dialectic.Proofs.Renumbering
import Dialectic.Proofs.Reordering
import Dialectic.Proofs.Returned
import Dialectic.Proofs.Rounding
import Dialectic.Proofs.SearchStates
import Dialectic.Proofs.Shortest
import Dialectic.Proofs.Spelling
import Dialectic.Proofs.Strings
import Dialectic.Proofs.Sum
import Dialectic.Proofs.Tables
import Dialectic.Proofs.Tokens
import Dialectic.Proofs.TornLines
import Dialectic.Proofs.Wrapping
import Dialectic.Proofs.Writing
import Dialectic.Sat.Bench
import Dialectic.Service.Server
import Dialectic.Text.Utf8.RoundTrip
