import DecoyAuth.Lib.Bytes
import DecoyAuth.Lib.Dragonfly
import DecoyAuth.Lib.KeyedQueue
import DecoyAuth.Lib.Loop
import DecoyAuth.Lib.Nodal
import DecoyAuth.Lib.Residue
import DecoyAuth.Lib.Run
import DecoyAuth.Lib.Swu
import DecoyAuth.Lib.TonelliShanks
import DecoyAuth.Crypto.Bignum
import DecoyAuth.Crypto.Ec
import DecoyAuth.Crypto.Hash
import DecoyAuth.Crypto.ConstTime
import DecoyAuth.Crypto.Small
import DecoyAuth.Scripts.Util
import DecoyAuth.Scripts.Sqrt
import DecoyAuth.Scripts.Swu
import DecoyAuth.Encode.Candidates
import DecoyAuth.Encode.Defs
import DecoyAuth.Encode.Map
import DecoyAuth.Encode.Inverse
import DecoyAuth.Encode.Correct
import DecoyAuth.Encode.Prototype
import DecoyAuth.Encode.Preimages
import DecoyAuth.Encode.Python
import DecoyAuth.Encode.PythonInverse
import DecoyAuth.Encode.PythonEncoder
import DecoyAuth.Weaver.Defs
import DecoyAuth.Weaver.RoundTrip
import DecoyAuth.Weaver.Polynomials
import DecoyAuth.Weaver.Hiding
import DecoyAuth.Weaver.Checked
import DecoyAuth.Weaver.Python
import DecoyAuth.Sae.Data
import DecoyAuth.Sae.Pwe
import DecoyAuth.Sae.Commit
import DecoyAuth.Sae.Parse
import DecoyAuth.Sae.Keys
import DecoyAuth.Sae.Small
import DecoyAuth.Sae.Frames
import DecoyAuth.Sae.KeyTables
import DecoyAuth.Sae.Confirm
import DecoyAuth.Sae.Send
import DecoyAuth.Sae.Wire
import DecoyAuth.Sae.Client
import DecoyAuth.Sae.Reflection
import DecoyAuth.Sae.Bounds
import DecoyAuth.Sae.RoundTrip
import DecoyAuth.Sae.Buffer
import DecoyAuth.Sae.Transfer
import DecoyAuth.Sae.PweAgree
import DecoyAuth.Sae.BranchFree
import DecoyAuth.Sae.BranchFreeEcc
import DecoyAuth.Sae.BranchFreeFfc
import DecoyAuth.Sae.Sswu
import DecoyAuth.Sae.Pt
import DecoyAuth.Scripts.HashToElement
import DecoyAuth.Sae.Secrets
import DecoyAuth.Sae.Prepared
import DecoyAuth.Sae.Failures
import DecoyAuth.Sae.Refinement
import DecoyAuth.Ap.Machine
import DecoyAuth.Ap.Small
import DecoyAuth.Ap.Sending
import DecoyAuth.Ap.Answers
import DecoyAuth.Ap.KeyView
import DecoyAuth.Ap.Commits
import DecoyAuth.Ap.Steps
import DecoyAuth.Ap.Invariant
import DecoyAuth.Ap.Memory
import DecoyAuth.Ap.Reject
import DecoyAuth.Ap.Accept
import DecoyAuth.Ap.Comeback
import DecoyAuth.Ap.Bss
import DecoyAuth.Ap.Queue
import DecoyAuth.Ap.Serving
import DecoyAuth.Ap.Stations
import DecoyAuth.Ap.Clogging
import DecoyAuth.Handshake.Defs
import DecoyAuth.Handshake.Commits
import DecoyAuth.Sae.Elements
import DecoyAuth.Sae.Exchange
import DecoyAuth.Handshake.Decode
import DecoyAuth.Handshake.Agreement
import DecoyAuth.Sme.Machine
import DecoyAuth.Sme.Invariant
import DecoyAuth.Sme.Password
import DecoyAuth.Handshake.Token
import DecoyAuth.Handshake.Air
import DecoyAuth.Handshake.Client
import DecoyAuth.Handshake.Complete
