import CachePolicies.Ghb.History
import CachePolicies.Ghb.PatternTable
import CachePolicies.Ghb.Run
import CachePolicies.Ghb.Abstract
import CachePolicies.Ghb.Refinement
import CachePolicies.Ghb.Correlation
import CachePolicies.Ghb.Learning
import CachePolicies.Ghb.Prefetcher
import CachePolicies.Ghb.Prediction
import CachePolicies.Ghb.Configuration
import CachePolicies.Ghb.Stride
import CachePolicies.Mockingjay.Json
import CachePolicies.Mockingjay.Policy
import CachePolicies.Mockingjay.Weights
import CachePolicies.Mockingjay.Lookup
import CachePolicies.Mockingjay.WeightsFile
import CachePolicies.Mockingjay.Run
import CachePolicies.Mockingjay.Model
import CachePolicies.Mockingjay.Feedback
import CachePolicies.Mockingjay.Lines
import CachePolicies.Mockingjay.UnreadFields
